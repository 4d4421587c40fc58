import DesignDoc.Annotation.Comment
import DesignDoc.Assembly.Action
import DesignDoc.Assembly.Association
import DesignDoc.Document.Width

/-! The assembler. It keeps the file, a stack of the modules and routines that are open, and for
each of these scopes a buffer of items that are read and not attached to anything yet. -/

namespace DesignDoc.Assembly

open DesignDoc.Annotation DesignDoc.Document DesignDoc.Event DesignDoc.Json

/-- A module or a routine. -/
inductive Element where
  | module (m : Module)
  | routine (r : Routine)
  deriving DecidableEq, Repr

namespace Element

def body : Element → Body
  | module m => m.toBody
  | routine r => r.toBody

def mapBody (f : Body → Body) : Element → Element
  | module m => module { m with toBody := f m.toBody }
  | routine r => routine { r with toBody := f r.toBody }

def title : Element → String
  | module m => m.title
  | routine r => r.title

def associate : Element → Element
  | module m => module (associateModule m)
  | routine r => routine (associateRoutine r)

def isModule : Element → Bool
  | module _ => true
  | routine _ => false

def isRoutine (e : Element) : Bool := ! e.isModule

end Element

/-- An open module or routine, with the items that wait in it. -/
structure Scope where
  element : Element
  pending : List Item := []
  deriving DecidableEq, Repr

/-- The scope with its waiting items handed to the element. Text in the body of a module or a
routine is not its summary. -/
def Scope.settled (s : Scope) : Element :=
  s.element.mapBody fun b => { b with items := b.items ++ s.pending.filter (! ·.isSummary) }

structure State where
  /-- Whether complaints are reported. -/
  strict : Bool := false
  file : File
  /-- The items that wait in the file. -/
  filePending : List Item := []
  /-- The open modules and routines, innermost first. -/
  scopes : List Scope := []
  diagnostics : List Diagnostic := []
  finished : Bool := false
  deriving DecidableEq, Repr

namespace State

/-- The assembler of a file of which nothing is read. -/
def initial (name : String) (strict : Bool) : State := { strict, file := { name } }

def depth (s : State) : Nat := s.scopes.length

/-! ### The current scope -/

/-- The items that wait in the innermost scope. -/
def pending (s : State) : List Item :=
  match s.scopes with
  | [] => s.filePending
  | top :: _ => top.pending

def setPending (items : List Item) (s : State) : State :=
  match s.scopes with
  | [] => { s with filePending := items }
  | top :: rest => { s with scopes := { top with pending := items } :: rest }

/-- Change what is declared in the innermost module or routine. At the level of the file there is
none, and nothing changes. -/
def mapOwner (f : Body → Body) (s : State) : State :=
  match s.scopes with
  | [] => s
  | top :: rest => { s with scopes := { top with element := top.element.mapBody f } :: rest }

@[simp] theorem pending_setPending (items : List Item) (s : State) :
    (s.setPending items).pending = items := by
  unfold setPending
  split <;> simp_all [pending]

/-- Only strict assembly reports. -/
def report (scope : String) (cs : List Complaint) (s : State) : State :=
  if s.strict then { s with diagnostics := s.diagnostics ++ cs.map (⟨·, scope⟩) } else s

/-! ### Opening and closing -/

/-- An element that is opened takes the items that wait around it. -/
def push (e : Element) (s : State) : State :=
  let opened : Scope := { element := e.mapBody fun b => { b with items := b.items ++ s.pending } }
  { s.setPending [] with scopes := opened :: (s.setPending []).scopes }

/-- A routine belongs to the innermost module that is open; without one it is dropped. -/
def addTask (r : Routine) : List Scope → List Scope
  | [] => []
  | s :: rest =>
    match s.element with
    | .module m => { s with element := .module { m with tasks := m.tasks ++ [r] } } :: rest
    | .routine _ => s :: addTask r rest

/-- A closed module belongs to the file, whatever it stands in. -/
def place (e : Element) (s : State) : State :=
  match e with
  | .module m => { s with file := { s.file with modules := s.file.modules ++ [m] } }
  | .routine r => { s with scopes := addTask r s.scopes }

/-- Close the innermost scope. -/
def closeTop (s : State) : State :=
  match s.scopes with
  | [] => s
  | top :: rest =>
    let e := top.settled
    (report e.title (bodyComplaints e.body) { s with scopes := rest }).place e.associate

/-- Close the innermost scope if it is of the kind that is left; any other leave is ignored. -/
def leave (p : Element → Bool) (s : State) : State :=
  match s.scopes with
  | [] => s
  | top :: _ => if p top.element then s.closeTop else s

def closeAll (s : State) : State := Nat.repeat closeTop s.depth s

/-- The file takes all that still waits in it. -/
def closeFile (s : State) : State :=
  let file := { s.file with items := s.file.items ++ s.filePending }
  let s := report file.title (fileComplaints file) s
  { s with file := associateFile file, filePending := [] }

/-- Close every scope and the file. This is done once. -/
def finish (s : State) : State :=
  if s.finished then s else { s.closeAll.closeFile with finished := true }

/-! ### Declarations -/

def portOf (d : Declaration) (x : Declarator) : Port :=
  { name := x.name, type := d.type, direction := d.direction, dimensions := x.dimensions }

def parameterOf (d : Declaration) (description : String) (x : Declarator) : Parameter :=
  { name := x.name, type := d.type, default := x.default, dimensions := x.dimensions, description }

def signalOf (d : Declaration) (summary : Option String) (width : Option Int) (items : List Item)
    (x : Declarator) : Signal :=
  { name := x.name, summary, type := d.type, width, dimensions := x.dimensions, items }

/-- Ports leave the waiting items alone: they are documented by name. -/
def addPorts (d : Declaration) (s : State) : State :=
  s.mapOwner fun b => { b with ports := b.ports ++ d.declarators.map (portOf d) }

/-- Parameters take the summary that waits, and all else that waits is dropped. -/
def addParameters (d : Declaration) (s : State) : State :=
  let description := joinedSummary s.pending
  let declare (b : Body) : Body :=
    { b with parameters := b.parameters ++ d.declarators.map (parameterOf d description) }
  (s.mapOwner declare).setPending []

/-- The width of the signals of a declaration, if there are any and they are kept. -/
def signalWidth (d : Declaration) (s : State) : Except Fault (Option Int) :=
  if s.scopes.isEmpty || d.declarators.isEmpty then .ok none
  else (packedWidth? d.type).mapError .overlong

/-- Signals take the items that wait, but for those that wait for the scope around them. -/
def addSignals (d : Declaration) (s : State) : Except Fault State := do
  let width ← s.signalWidth d
  let summary := Text.nonempty? (joinedSummary s.pending)
  let items := s.pending.filter fun i => ! i.isSummary && ! i.isScopeItem
  let declare (b : Body) : Body :=
    { b with signals := b.signals ++ d.declarators.map (signalOf d summary width items) }
  return (s.mapOwner declare).setPending (s.pending.filter Item.isScopeItem)

/-! ### Steps -/

/-- Act upon an action. A fault leaves nothing behind. -/
def act (s : State) : Action → Except Fault State
  | .comment text => .ok (s.setPending (s.pending ++ Comment.items text))
  | .openModule name => .ok (s.push (.module { name }))
  | .openRoutine isFunction name => .ok (s.push (.routine { name, isFunction }))
  | .closeModule => .ok (s.leave Element.isModule)
  | .closeRoutine => .ok (s.leave Element.isRoutine)
  | .ports d => .ok (s.addPorts d)
  | .parameters d => .ok (s.addParameters d)
  | .signals d => s.addSignals d
  | .skip => .ok s

/-- Take in one event of the named source. -/
def feed {ν : Type} [Inspect ν] (source : String) (s : State) (e : Event ν) : Except Fault State :=
  actionOf source e >>= s.act

end State

end DesignDoc.Assembly
