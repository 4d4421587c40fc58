import DesignDoc.Assembly.Run
import DesignDoc.Generator.Directory
import DesignDoc.Generator.Request
import DesignDoc.Recording.Dump
import DesignDoc.Registry
import DesignDoc.Text.Lines

/-! The documentation of files. A generator opens each file as a source of the kind that its
options name, and assembles the document. Files are independent of each other: one in which
something has no name is skipped with a warning. -/

namespace DesignDoc.Generator

open DesignDoc.Assembly DesignDoc.Document DesignDoc.Recording

/-! ### Sources -/

/-- Where events come from. -/
inductive SourceKind where
  | recording
  | syntaxTree
  deriving DecidableEq, Repr

/-- The kinds of sources and the keys they are chosen by. -/
def sourceKinds : Registry SourceKind :=
  { name := "source", entries := [("recorded", .recording), ("slang", .syntaxTree)] }

inductive Fault where
  | unknownSource (e : Registry.Fault)
  | load (e : LoadError)
  | fileMissing (path : String)
  /-- The path leads to a directory. -/
  | fileIsDirectory (path : String)
  /-- The path leads through a file. -/
  | fileInWay (path : String)
  /-- No file can have this path. -/
  | fileUnnameable (path : String)
  /-- The path cannot be spelled in bytes. -/
  | fileUnspellable (path : String)
  | fileUndecodable (path : String)
  /-- Something is said of a subject that does not accept it. -/
  | settingRefused
  | parserMissing
  | assembly (f : Assembly.Fault)
  deriving DecidableEq, Repr

/-- What the generator finds around it: the directory it works in, and a parser. A parser may refuse
a request. -/
structure Environment where
  directory : Directory := {}
  parser? : Option (Request → Except Fault Tree)

/-- A tree is an answer of a parser. -/
instance : Coe Tree (Except Fault Tree) := ⟨.ok⟩

/-- The advice for users without a parser. -/
def parserMissingMessage : String :=
  "pyslang is required for the SlangSource but is not installed. "
    ++ "Install it via `pip install pyslang` and ensure build dependencies such as "
    ++ "cmake and a C++ compiler are available."

def Fault.message : Fault → String
  | unknownSource e => e.message
  | load e => e.message
  | fileMissing path => "no such file: " ++ path
  | fileIsDirectory path => "a directory: " ++ path
  | fileInWay path => "not a directory on the way: " ++ path
  | fileUnnameable _ => "embedded null byte"
  | fileUnspellable path => "no path: " ++ path
  | fileUndecodable path => "not encoded in UTF-8: " ++ path
  | settingRefused => "a file takes no name, and a tree takes no preprocessing"
  | parserMissing => parserMissingMessage
  | assembly f => f.message

namespace Environment

/-- The text of a file; its line ends become line feeds. -/
def read (env : Environment) (path : String) : Except Fault (List Char) :=
  match env.directory.find path with
  | .missing => .error (.fileMissing path)
  | .directory => .error (.fileIsDirectory path)
  | .blocked => .error (.fileInWay path)
  | .unnameable => .error (.fileUnnameable path)
  | .unspellable => .error (.fileUnspellable path)
  | .file bytes =>
    match String.fromUTF8? bytes with
    | none => .error (.fileUndecodable path)
    | some text => .ok (Text.unifyNewlines (Text.hold text).toList)

/-- The tree of a subject. A parser must be there even if the tree is parsed already. -/
def parse (env : Environment) (s : Subject) (x : Settings) : Except Fault Tree :=
  if ! s.accepts x then .error .settingRefused
  else
    match env.parser? with
    | none => .error .parserMissing
    | some parser => (s.demand x).elim parser .ok

/-- The source of syntax tree events of a subject. -/
def openTree (env : Environment) (s : Subject) (x : Settings) : Except Fault (Source Tree) :=
  (env.parse s x).map (sourceOfTree (s.name x))

end Environment

/-! ### One file -/

structure Options where
  source : String := "slang"
  includeDirs : List String := []
  defines : List String := []
  strict : Bool := false
  deriving DecidableEq, Repr

/-- What is to be documented. -/
inductive Input where
  | text (text name : String)
  | file (path : String)
  deriving DecidableEq, Repr

/-- The recording that an input holds. -/
def openRecording (env : Environment) : Input → Except Fault (Source Node)
  | .text text name => (ofText name text.toList).mapError .load
  | .file path => do
    let text ← env.read path
    (ofText path text).mapError .load

/-- The subject of an input. -/
def Input.subject : Input → Subject
  | .text t _ => .text t
  | .file path => .file path

/-- What the options say of an input. -/
def settingsOf (o : Options) (i : Input) : Settings :=
  { name := match i with
      | .text _ name => some name
      | .file _ => none
    includeDirs := some o.includeDirs
    defines := some o.defines }

/-- Assemble an input. A fault before the assembly starts is apart from its outcome. -/
def assembleInput (env : Environment) (o : Options) (i : Input) : Except Fault Outcome := do
  let kind ← (sourceKinds.get o.source).mapError .unknownSource
  match kind with
  | .recording => return assemble (← openRecording env i) none o.strict
  | .syntaxTree => return assemble (← env.openTree i.subject (settingsOf o i)) none o.strict

/-! ### The generator -/

end DesignDoc.Generator

namespace DesignDoc

open DesignDoc.Assembly DesignDoc.Document DesignDoc.Generator

/-- The options of a generator and the diagnostics of its last call. -/
structure Generator where
  options : Options := {}
  diagnostics : List Diagnostic := []
  deriving DecidableEq, Repr

namespace Generator

/-- Document one input. The diagnostics are those of this input alone, also if it fails. -/
def document (env : Environment) (i : Input) (g : Generator) :
    Except Generator.Fault File × Generator :=
  match assembleInput env g.options i with
  | .error f => (.error f, { g with diagnostics := [] })
  | .ok o =>
    (match o.fault with
      | some f => .error (.assembly f)
      | none => .ok o.state.file,
     { g with diagnostics := o.state.diagnostics })

/-- A file that is left out. -/
structure Warning where
  path : String
  reason : Assembly.Fault
  deriving DecidableEq, Repr

def Warning.message (w : Warning) : String := "skipping " ++ w.path ++ ": " ++ w.reason.message

/-- What came of a list of files. -/
structure Batch where
  result : Except Generator.Fault (List File)
  warnings : List Warning
  generator : Generator

/-- The reason to skip a file: something in it has no name. -/
def skipReason? : Generator.Fault → Option Assembly.Fault
  | .assembly (.missingIdentifier kind source) => some (.missingIdentifier kind source)
  | _ => none

/-- Go through the files that are left, with what came of those before. -/
def documentRest (env : Environment) (files : List File) (diagnostics : List Diagnostic)
    (warnings : List Warning) (g : Generator) : List String → Batch
  | [] => ⟨.ok files, warnings, { g with diagnostics }⟩
  | path :: paths =>
    match g.document env (.file path) with
    | (.ok file, g) =>
      documentRest env (files ++ [file]) (diagnostics ++ g.diagnostics) warnings g paths
    | (.error f, g) =>
      match skipReason? f with
      | some reason =>
        documentRest env files (diagnostics ++ g.diagnostics) (warnings ++ [⟨path, reason⟩]) g
          paths
      | none => ⟨.error f, warnings, g⟩

/-- Document files in order. The diagnostics are those of all of them, skipped ones included; a
fault of another kind than a missing name ends the work. -/
def documentFiles (env : Environment) (paths : List String) (g : Generator) : Batch :=
  documentRest env [] [] [] g paths

end Generator

end DesignDoc
