import DesignDoc.Recording.Builder
import DesignDoc.Recording.Dump

/-! Scripts: calls of the builder as JSON objects. The member `do` says which call it is and the
others are its arguments. -/

namespace DesignDoc.Recording

open DesignDoc.Json DesignDoc.Event

/-- The arguments that a call needs, and those that it can do without. -/
structure Signature where
  required : List String := []
  optional : List String := []
  deriving DecidableEq, Repr

/-- The calls that declare or bracket something. -/
def signatures : List (String × Signature) :=
  [("comment", { required := ["text"] }),
   ("enter_module", { required := ["name"] }),
   ("leave_module", {}),
   ("enter_function", { required := ["name"], optional := ["task"] }),
   ("leave_function", { optional := ["task"] }),
   ("ansi_port", { required := ["name"], optional := ["direction", "data_type", "dimensions"] }),
   ("port_declaration",
     { required := ["names"], optional := ["direction", "data_type", "dimensions"] }),
   ("parameter", { required := ["names"], optional := ["default", "data_type", "dimensions"] }),
   ("signal", { required := ["names"], optional := ["data_type", "dimensions"] })]

/-- Whether the arguments, given by their names, are those of a signature. -/
def Signature.accepts (s : Signature) (arguments : List String) : Bool :=
  s.required.all arguments.contains && arguments.all (s.required ++ s.optional).contains

/-- Why an object is no call. -/
inductive ScriptError where
  | unknownCall (name : Value)
  /-- An argument is missing, not known, or no list where there must be one. -/
  | badArguments (call : String)
  | notAName (e : NotAName)
  deriving DecidableEq, Repr

def ScriptError.message : ScriptError → String
  | unknownCall name => "no such call: " ++ name.inspect
  | badArguments call => "these are not the arguments of " ++ call
  | notAName e => e.message

/-- What a value lists: an array its items, an object its keys and a string its characters. -/
def listed? : Value → Option (List Value)
  | .arr items => some items
  | .obj members => some (members.map (.str ·.1))
  | .str s => some ((Text.codePoints s.toList).map fun n => .str (String.ofList (Text.spell n)))
  | _ => none

/-- The names of a declaration; a string is one name. -/
def names? : Value → Option (List Value)
  | .str s => some [.str s]
  | v => listed? v

/-- The dimensions of several names; a vacant value lists none. -/
def dimensions? (v : Value) : Option (List Value) := if v.isVacant then some [] else listed? v

/-- The call of one of the signatures, whose arguments are accepted. -/
def declaringCall? (name : String) (v : Value) : Option Call :=
  let isFunction := (v.getD "task").isVacant
  let direction := v.getD "direction"
  let type := v.getD "data_type"
  match name with
  | "comment" => some (.comment (v.getD "text"))
  | "enter_module" => some (.enterModule (v.getD "name"))
  | "leave_module" => some .leaveModule
  | "enter_function" => some (.enterRoutine isFunction (v.getD "name"))
  | "leave_function" => some (.leaveRoutine isFunction)
  | "ansi_port" => some (.ansiPort (v.getD "name") direction type (v.getD "dimensions"))
  | "port_declaration" => do
    return .portDeclaration (← names? (v.getD "names")) direction type
      (← dimensions? (v.getD "dimensions"))
  | "parameter" => do
    return .parameter (← names? (v.getD "names")) (v.getD "default") type (v.getD "dimensions")
  | "signal" => do
    return .signal (← names? (v.getD "names")) type (← dimensions? (v.getD "dimensions"))
  | _ => none

/-- The event that a call adds as it is; its node has a text and an identifier. -/
def addingCall (v : Value) : Except NotAName Call := do
  let phase ← phaseOf (v.getD "phase")
  let kind ← kindOf (v.getD "kind")
  let node : Option Node := match v.getD "node" with
    | .obj members =>
      let n := Value.obj members
      some { text := (n.get? "text").getD (.str ""), identifier := n.getD "identifier" }
    | _ => none
  return .add phase kind node

/-- The names of the members of an object but for `do`. -/
def argumentNames : Value → List String
  | .obj members => (members.map (·.1)).filter (· != "do")
  | _ => []

/-- The call that an object describes. -/
def callOf (v : Value) : Except ScriptError Call :=
  match v.getD "do" with
  | .str "add" => (addingCall v).mapError .notAName
  | .str name =>
    match signatures.lookup name with
    | none => .error (.unknownCall (.str name))
    | some s =>
      if s.accepts (argumentNames v) then
        ((declaringCall? name v).map .ok).getD (.error (.badArguments name))
      else .error (.badArguments name)
  | name => .error (.unknownCall name)

end DesignDoc.Recording
