import DesignDoc.Document.StateMachine
import DesignDoc.Json.Display

/-! The records of a document: what is declared in a module or a routine, the modules of a file,
and the file. -/

namespace DesignDoc.Document

open DesignDoc.Annotation DesignDoc.Json

/-! ### Declarations -/

structure Port where
  name : String
  type : Option String := none
  direction : Option String := none
  dimensions : Option String := none
  description : String := ""
  deriving DecidableEq, Repr

/-- Direction, type, name and dimensions, as far as they are there. -/
def Port.signature (p : Port) : String :=
  Text.joined [p.direction.getD "", p.type.getD "", p.name, p.dimensions.getD ""]

structure Parameter where
  name : String
  type : Option String := none
  default : Option String := none
  dimensions : Option String := none
  description : String := ""
  deriving DecidableEq, Repr

/-- The keyword, the type if there is one, the name, and the default if there is one. -/
def Parameter.signature (p : Parameter) : String :=
  " ".intercalate
    (["parameter"] ++ (p.type.filter (· ≠ "")).toList ++ [p.name]
      ++ (p.default.map fun d => ["=", d]).getD [])

structure Signal where
  name : String
  summary : Option String := none
  type : Option String := none
  width : Option Int := none
  dimensions : Option String := none
  items : List Item := []
  deriving DecidableEq, Repr

/-! ### Design elements -/

/-- What modules and routines have in common. -/
structure Body where
  ports : List Port := []
  parameters : List Parameter := []
  signals : List Signal := []
  items : List Item := []
  deriving DecidableEq, Repr

/-- A function or a task. Its name is what the source gives, which need not be a text. -/
structure Routine extends Body where
  name : Value
  isFunction : Bool := true
  summary : String := ""
  deriving DecidableEq, Repr

structure Module extends Body where
  name : Value
  summary : Option String := none
  tasks : List Routine := []
  deriving DecidableEq, Repr

structure Revision where
  name : String
  text : String
  deriving DecidableEq, Repr

structure File where
  name : String
  summary : String := ""
  author : String := ""
  revisions : List Revision := []
  modules : List Module := []
  items : List Item := []
  deriving DecidableEq, Repr

def Routine.title (r : Routine) : String :=
  (if r.isFunction then "function " else "task ") ++ r.name.display

def Module.title (m : Module) : String := "module " ++ m.name.display

def File.title (f : File) : String := "file " ++ f.name

/-! ### Look up by name -/

def Module.port? (m : Module) (name : String) : Option Port := m.ports.find? (·.name = name)

def Module.parameter? (m : Module) (name : String) : Option Parameter :=
  m.parameters.find? (·.name = name)

def Module.signal? (m : Module) (name : String) : Option Signal := m.signals.find? (·.name = name)

def File.module? (f : File) (name : String) : Option Module :=
  f.modules.find? (·.name = .str name)

/-- The machines of a module's own items, then those of the items of its signals. -/
def Module.stateMachines (m : Module) : List StateMachine :=
  Document.stateMachines m.items ++ m.signals.flatMap fun s => Document.stateMachines s.items

end DesignDoc.Document
