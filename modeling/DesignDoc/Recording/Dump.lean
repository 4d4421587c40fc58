import DesignDoc.Recording.Node
import DesignDoc.Json.Reader

/-! Event dumps: recorded events as a JSON array. Each entry is an object with a phase, a kind
and, if it has one, a node; the first entry that cannot be read refuses the dump. -/

namespace DesignDoc.Recording

open DesignDoc.Json DesignDoc.Event DesignDoc.Text

/-- A value that is not one of the names of a family. -/
structure NotAName where
  value : Value
  family : String
  deriving DecidableEq, Repr

def NotAName.message (e : NotAName) : String :=
  e.value.inspect ++ " is not a valid " ++ e.family

def phaseOf (v : Value) : Except NotAName Phase :=
  match v with
  | .str s => ((Phase.ofName? s).map .ok).getD (.error ⟨v, "Phase"⟩)
  | _ => .error ⟨v, "Phase"⟩

def kindOf (v : Value) : Except NotAName Kind :=
  match v with
  | .str s => ((Kind.ofName? s).map .ok).getD (.error ⟨v, "NodeKind"⟩)
  | _ => .error ⟨v, "NodeKind"⟩

/-- Why an entry is no event. -/
inductive BadEntry where
  | missing (key : String)
  | notAName (e : NotAName)
  deriving DecidableEq, Repr

def BadEntry.reason : BadEntry → String
  | missing key => quoted key
  | notAName e => e.message

/-- Why a dump cannot be loaded. -/
inductive LoadError where
  /-- The text of the dump is not JSON. -/
  | malformed (name : String) (p : Problem) (place : Position)
  | overlong (e : Overlong)
  | notArray (name : String)
  | entryNotObject
  | badEntry (entry : Value) (why : BadEntry)
  | nodeNotObject
  | declarationNotObject
  | declaratorsNotArray
  | declaratorNotObject
  | declaratorUnnamed
  deriving DecidableEq, Repr

/-- A dump without a name is called after the text it was read from. -/
def dumpTitle (name : String) : String := if name = "" then "<text>" else name

def LoadError.message : LoadError → String
  | malformed name p place => dumpTitle name ++ ": invalid event dump: " ++ p.messageAt place
  | overlong e => e.message
  | notArray name => dumpTitle name ++ ": event dump must be a JSON array"
  | badEntry entry why => "invalid event " ++ entry.inspect ++ ": " ++ why.reason
  | entryNotObject => "an event must be an object"
  | nodeNotObject => "a node must be an object"
  | declarationNotObject => "a declaration must be an object"
  | declaratorsNotArray => "declarators must be an array"
  | declaratorNotObject => "a declarator must be an object"
  | declaratorUnnamed => "name"

/-! ### Loading -/

def loadDeclarator (v : Value) : Except LoadError RawDeclarator :=
  match v with
  | .obj _ =>
    match v.get? "name" with
    | some name =>
      .ok { name, dimensions := v.getD "dimensions", default := v.getD "default" }
    | none => .error .declaratorUnnamed
  | _ => .error .declaratorNotObject

/-- Declarators stand in an array; an empty string and an empty object hold none. -/
def loadDeclarators : Option Value → Except LoadError (List RawDeclarator)
  | none => .ok []
  | some (.arr items) => items.mapM loadDeclarator
  | some (.str s) => if s = "" then .ok [] else .error .declaratorNotObject
  | some (.obj members) => if members.isEmpty then .ok [] else .error .declaratorNotObject
  | some _ => .error .declaratorsNotArray

def loadDeclaration (v : Value) : Except LoadError (Option RawDeclaration) :=
  match v with
  | .null => .ok none
  | .obj _ => do
    let declarators ← loadDeclarators (v.get? "declarators")
    return some { type := v.getD "data_type", direction := v.getD "direction", declarators }
  | _ => .error .declarationNotObject

def loadNode (v : Value) : Except LoadError (Option Node) :=
  match v with
  | .null => .ok none
  | .obj _ => do
    let declaration ← loadDeclaration (v.getD "declaration")
    return some
      { text := (v.get? "text").getD (.str ""), identifier := v.getD "identifier", declaration }
  | _ => .error .nodeNotObject

/-- The phase and the kind of an entry; the phase is looked at first. -/
def loadHead (entry : Value) : Except BadEntry (Phase × Kind) := do
  let phase ← match entry.get? "phase" with
    | some v => (phaseOf v).mapError .notAName
    | none => .error (.missing "phase")
  let kind ← match entry.get? "kind" with
    | some v => (kindOf v).mapError .notAName
    | none => .error (.missing "kind")
  return (phase, kind)

def loadEvent (entry : Value) : Except LoadError (Event Node) :=
  match entry with
  | .obj _ => do
    let (phase, kind) ← (loadHead entry).mapError (.badEntry entry)
    let node ← loadNode (entry.getD "node")
    return ⟨phase, kind, node⟩
  | _ => .error .entryNotObject

/-- The recording that a JSON value describes. -/
def ofValue (name : String) (v : Value) : Except LoadError (Source Node) :=
  match v with
  | .arr entries => do return { name, events := ← entries.mapM loadEvent }
  | _ => .error (.notArray name)

/-- The recording that a JSON text describes. -/
def ofText (name : String) (text : List Char) : Except LoadError (Source Node) :=
  match Json.read text with
  | .ok v => ofValue name v
  | .error (.malformed p offset) => .error (.malformed name p (positionAt text offset))
  | .error (.overlong e) => .error (.overlong e)

/-! ### Dumping -/

def dumpDeclarator (d : RawDeclarator) : Value :=
  .obj [("name", d.name), ("dimensions", d.dimensions), ("default", d.default)]

def dumpDeclaration : Option RawDeclaration → Value
  | none => .null
  | some d =>
    .obj [("data_type", d.type), ("direction", d.direction),
      ("declarators", .arr (d.declarators.map dumpDeclarator))]

def dumpNode (n : Node) : Value :=
  .obj [("text", n.text), ("identifier", n.identifier),
    ("declaration", dumpDeclaration n.declaration)]

def dumpEvent (e : Event Node) : Value :=
  .obj ([("phase", .str e.phase.name), ("kind", .str e.kind.name)]
    ++ (e.node.map fun n => ("node", dumpNode n)).toList)

/-- The dump of a list of events. -/
def dump (events : List (Event Node)) : Value := .arr (events.map dumpEvent)

end DesignDoc.Recording
