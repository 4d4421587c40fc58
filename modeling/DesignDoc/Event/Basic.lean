import DesignDoc.Json.Value

/-! Structural events. A source of a design is a stream of events, each of which enters or leaves
a construct that can be documented. The node of an event is opaque; what can be asked of it is its
text, the identifier it is named by, and the declaration it makes. -/

namespace DesignDoc.Event

open DesignDoc.Json

inductive Phase where
  | enter
  | leave
  deriving DecidableEq, Repr

inductive Kind where
  | module
  | ansiPort
  | portDeclaration
  | comment
  | parameterPortList
  | parameterDeclaration
  | signalDeclaration
  | function
  | task
  deriving DecidableEq, Repr

namespace Phase

def all : List Phase := [enter, leave]

def name : Phase → String
  | enter => "enter"
  | leave => "leave"

def ofName? (s : String) : Option Phase := all.find? (·.name == s)

theorem ofName?_name (p : Phase) : ofName? p.name = some p := by
  cases p <;> decide

end Phase

namespace Kind

def all : List Kind :=
  [module, ansiPort, portDeclaration, comment, parameterPortList, parameterDeclaration,
   signalDeclaration, function, task]

def name : Kind → String
  | module => "module"
  | ansiPort => "ansi_port"
  | portDeclaration => "port_declaration"
  | comment => "comment"
  | parameterPortList => "parameter_port_list"
  | parameterDeclaration => "parameter_declaration"
  | signalDeclaration => "signal_declaration"
  | function => "function"
  | task => "task"

def ofName? (s : String) : Option Kind := all.find? (·.name == s)

theorem ofName?_name (k : Kind) : ofName? k.name = some k := by
  cases k <;> decide

end Kind

/-! ### Declarations -/

/-- One declared name. -/
structure Declarator where
  name : String
  dimensions : Option String := none
  default : Option String := none
  deriving DecidableEq, Repr

/-- A declaration of ports, parameters or signals: its names share direction and type. -/
structure Declaration where
  type : Option String := none
  direction : Option String := none
  declarators : List Declarator := []
  deriving DecidableEq, Repr

/-- What is asked of the node of an event, or of a node on the way to its events. -/
inductive Question where
  | text
  | identifier
  | declaration
  /-- The names in a declaration. -/
  | declarators
  /-- What kind of node it is. -/
  | kind
  | firstToken
  | children
  deriving DecidableEq, Repr

/-- How a source answers questions about the nodes of its events, of which some have none. The
error is the question that has no answer. -/
class Inspect (ν : Type) where
  /-- The text of a node, trimmed. -/
  text : Option ν → Except Question String
  /-- The identifier that names a module, a function or a task; a vacant value names nothing. -/
  identifier : Option ν → Except Question Value
  /-- The declaration of a port, parameter or signal node. -/
  declaration : Kind → Option ν → Except Question Declaration

end DesignDoc.Event

namespace DesignDoc

open DesignDoc.Event DesignDoc.Json

/-- Entering or leaving a construct. -/
structure Event (ν : Type) where
  phase : Phase
  kind : Kind
  node : Option ν := none
  deriving DecidableEq, Repr

/-- The events of one file, and its name. A source may break off after its events, at a question
that one of its own nodes does not answer. -/
structure Source (ν : Type) where
  name : String := ""
  events : List (Event ν) := []
  breakOff : Option Question := none
  deriving DecidableEq, Repr

namespace Event

variable {ν : Type}

def enter (kind : Kind) (node : ν) : Event ν := ⟨.enter, kind, some node⟩

def leave (kind : Kind) (node : Option ν := none) : Event ν := ⟨.leave, kind, node⟩

/-- An event as a source of other nodes sees it: the node means nothing there. -/
def withoutNode {μ : Type} (e : Event μ) : Event ν := ⟨e.phase, e.kind, none⟩

variable [Inspect ν]

def text (e : Event ν) : Except Question String := Inspect.text e.node

def identifier (e : Event ν) : Except Question Value := Inspect.identifier e.node

def declaration (e : Event ν) : Except Question Declaration := Inspect.declaration e.kind e.node

end Event

end DesignDoc
