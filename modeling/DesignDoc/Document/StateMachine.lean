import DesignDoc.Annotation.Item
import DesignDoc.Text.Blank

/-! State machines. They are not stored: the items of a record are grouped on demand. A tag
`@fsm` opens a machine, and the states and transitions that follow belong to it; those before the
first machine belong to none. -/

namespace DesignDoc.Document

open DesignDoc.Annotation

structure State where
  name : String
  /-- Targets and what is said of the transition to them, in the order of first mention. -/
  transitions : List (String × String) := []
  items : List Item := []
  deriving DecidableEq, Repr

structure StateMachine where
  name : String
  summary : Option String := none
  states : List State := []
  deriving DecidableEq, Repr

/-- Write an entry of an ordered table: a key that is there keeps its place. -/
def setEntry (key value : String) : List (String × String) → List (String × String)
  | [] => [(key, value)]
  | e :: es => if e.1 = key then (key, value) :: es else e :: setEntry key value es

namespace StateMachine

/-- The first line of the text names the machine, the other lines are its summary. -/
def ofText (text : String) : StateMachine :=
  let s := Text.trim text.toList
  let name := s.takeWhile (· ≠ '\n')
  { name := String.ofList (Text.trim name)
    summary := Text.nonempty? (String.ofList (Text.trim (s.drop (name.length + 1)))) }

def get? (m : StateMachine) (name : String) : Option State := m.states.find? (·.name = name)

/-- A state that is mentioned belongs to the machine. -/
def mention (name : String) (m : StateMachine) : StateMachine :=
  if m.states.any (·.name = name) then m else { m with states := m.states ++ [{ name }] }

/-- Change the state of a name. -/
def modify (name : String) (f : State → State) (m : StateMachine) : StateMachine :=
  { m with states := m.states.map fun s => if s.name = name then f s else s }

/-- Add what an item says of a state or a transition. -/
def add (m : StateMachine) (i : Item) : StateMachine :=
  match i with
  | .named .state name _ =>
    (m.mention name).modify name fun s => { s with items := s.items ++ [i] }
  | .transition source target text =>
    ((m.mention source).modify source fun s =>
      { s with transitions := setEntry target text s.transitions }).mention target
  | _ => m

end StateMachine

/-- Read one item; the machines that are open so far stand in reverse. -/
def groupStep (machines : List StateMachine) (i : Item) : List StateMachine :=
  match i, machines with
  | .simple .machine text, _ => .ofText text :: machines
  | _, [] => []
  | i, m :: rest => m.add i :: rest

/-- The state machines that a list of items describes. -/
def stateMachines (items : List Item) : List StateMachine := (items.foldl groupStep []).reverse

@[simp] theorem stateMachines_nil : stateMachines [] = [] := rfl

end DesignDoc.Document
