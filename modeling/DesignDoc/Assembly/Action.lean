import DesignDoc.Event.Basic
import DesignDoc.Text.Digit

/-! What an event asks of the assembler. Most events ask for nothing: only comments, the ends of
modules and routines, and the starts of declarations are acted upon. -/

namespace DesignDoc.Assembly

open DesignDoc.Event DesignDoc.Json

/-- Why an event cannot be acted upon. -/
inductive Fault where
  /-- The source has no answer to a question about the event. -/
  | unanswered (q : Question)
  /-- A module, a function or a task has no name. -/
  | missingIdentifier (kind : Kind) (source : String)
  /-- A bound of a packed range has too many digits. -/
  | overlong (e : Text.Overlong)
  deriving DecidableEq, Repr

/-- The complaint about a construct without a name, with a detail if there is one. -/
def missingIdentifierMessage (kind detail : String) : String :=
  "no identifier found for " ++ kind ++ (if detail = "" then "" else ": " ++ detail)

def Fault.message : Fault → String
  | unanswered .text => "the text of a comment must be a string"
  | unanswered .identifier => "there is no node to be named"
  | unanswered .declaration => "there is no node to declare anything"
  | unanswered .declarators => "the declarators must be listed"
  | unanswered .kind => "the root of a tree must have a kind"
  | unanswered .firstToken => "the root of a tree must have a first token"
  | unanswered .children => "the root of a tree must have children"
  | missingIdentifier kind source => missingIdentifierMessage kind.name source
  | overlong e => e.message

inductive Action where
  | comment (text : String)
  | openModule (name : Value)
  | openRoutine (isFunction : Bool) (name : Value)
  | closeModule
  | closeRoutine
  | ports (d : Declaration)
  | parameters (d : Declaration)
  | signals (d : Declaration)
  | skip
  deriving DecidableEq, Repr

variable {ν : Type} [Inspect ν]

/-- The identifier of an event, which must name something. -/
def requireIdentifier (source : String) (e : Event ν) : Except Fault Value := do
  let name ← e.identifier.mapError .unanswered
  if name.isVacant then .error (.missingIdentifier e.kind source) else .ok name

def requireDeclaration (e : Event ν) : Except Fault Declaration :=
  e.declaration.mapError .unanswered

/-- The action of an event of the named source. -/
def actionOf (source : String) (e : Event ν) : Except Fault Action :=
  match e.phase, e.kind with
  | .enter, .comment => (e.text.mapError .unanswered).map .comment
  | .enter, .module => (requireIdentifier source e).map .openModule
  | .enter, .function => (requireIdentifier source e).map (.openRoutine true)
  | .enter, .task => (requireIdentifier source e).map (.openRoutine false)
  | .enter, .ansiPort | .enter, .portDeclaration => (requireDeclaration e).map .ports
  | .enter, .parameterDeclaration => (requireDeclaration e).map .parameters
  | .enter, .signalDeclaration => (requireDeclaration e).map .signals
  | .leave, .module => .ok .closeModule
  | .leave, .function | .leave, .task => .ok .closeRoutine
  | _, _ => .ok .skip

end DesignDoc.Assembly
