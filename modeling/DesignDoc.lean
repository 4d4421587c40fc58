import DesignDoc.Annotation.Comment
import DesignDoc.Annotation.Fold
import DesignDoc.Annotation.Item
import DesignDoc.Annotation.Line
import DesignDoc.Assembly.Action
import DesignDoc.Assembly.Association
import DesignDoc.Assembly.Diagnostic
import DesignDoc.Assembly.Run
import DesignDoc.Assembly.State
import DesignDoc.Decimal.Binary64
import DesignDoc.Decimal.Shortest
import DesignDoc.Document.Basic
import DesignDoc.Document.StateMachine
import DesignDoc.Document.Width
import DesignDoc.Event.Basic
import DesignDoc.Generator.Basic
import DesignDoc.Generator.Directory
import DesignDoc.Generator.Request
import DesignDoc.Json.Display
import DesignDoc.Json.Reader
import DesignDoc.Json.Token
import DesignDoc.Json.Value
import DesignDoc.Json.Writer
import DesignDoc.Proofs.Assembly.Accounting
import DesignDoc.Proofs.Assembly.Buffers
import DesignDoc.Proofs.Assembly.Closing
import DesignDoc.Proofs.Assembly.Conservation
import DesignDoc.Proofs.Assembly.Flow
import DesignDoc.Proofs.Assembly.Forest
import DesignDoc.Proofs.Assembly.Nesting
import DesignDoc.Proofs.Assembly.Reports
import DesignDoc.Proofs.Assembly.Stages
import DesignDoc.Proofs.Assembly.Step
import DesignDoc.Proofs.Assembly.Summary
import DesignDoc.Proofs.Tree.Brackets
import DesignDoc.Proofs.Tree.Hoisting
import DesignDoc.Recording.Builder
import DesignDoc.Recording.Dump
import DesignDoc.Recording.Node
import DesignDoc.Recording.Script
import DesignDoc.Registry
import DesignDoc.Text.Blank
import DesignDoc.Text.CodePoint
import DesignDoc.Text.Digit
import DesignDoc.Text.Lines
import DesignDoc.Text.Printable
import DesignDoc.Text.Quoted
import DesignDoc.Tree.Basic
import DesignDoc.Tree.CleanText
import DesignDoc.Tree.Declaration
import DesignDoc.Tree.Walk
import DesignDoc.Proofs.Assembly.NameDocs
import DesignDoc.Proofs.Assembly.Machines
import DesignDoc.Proofs.Assembly.Descriptions
import DesignDoc.Proofs.Assembly.Diagnostics
import DesignDoc.Proofs.Assembly.Orphans
import DesignDoc.Proofs.Assembly.Strictness
import DesignDoc.Proofs.Assembly.NormalForm
import DesignDoc.Proofs.Assembly.Unseen
import DesignDoc.Proofs.Assembly.Independence
import DesignDoc.Proofs.Assembly.Work
import DesignDoc.Proofs.Assembly.Refusal
import DesignDoc.Proofs.Generator.Batch
import DesignDoc.Proofs.Text.Lines
import DesignDoc.Proofs.Annotation.Grammar
import DesignDoc.Proofs.Annotation.Canonical
import DesignDoc.Proofs.Annotation.Forms
import DesignDoc.Proofs.Annotation.Runs
import DesignDoc.Proofs.Assembly.Resolution
import DesignDoc.Proofs.Tree.CleanText
import DesignDoc.Proofs.Text.Spacing
import DesignDoc.Proofs.Tree.Stability
import DesignDoc.Proofs.Document.Rearrangement
import DesignDoc.Proofs.Annotation.Folding
import DesignDoc.Proofs.Annotation.Delimiters
import DesignDoc.Proofs.Annotation.Layout
import DesignDoc.Proofs.Assembly.Commutation
import DesignDoc.Proofs.Assembly.Truncation
import DesignDoc.Proofs.Event.Texts
import DesignDoc.Proofs.Recording.Reloading
