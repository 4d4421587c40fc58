import DesignDoc.Recording.Node

/-! Building a recording call by call. Each call adds the events of one construct: comments and
declarations are entered and left at once, modules and routines are entered and left by calls of
their own. What a call is given is recorded as it is. -/

namespace DesignDoc.Recording

open DesignDoc.Json DesignDoc.Event

inductive Call where
  | add (phase : Phase) (kind : Kind) (node : Option Node)
  | comment (text : Value)
  | enterModule (name : Value)
  | leaveModule
  | enterRoutine (isFunction : Bool) (name : Value)
  | leaveRoutine (isFunction : Bool)
  | ansiPort (name direction type dimensions : Value)
  | portDeclaration (names : List Value) (direction type : Value) (dimensions : List Value)
  | parameter (names : List Value) (default type dimensions : Value)
  | signal (names : List Value) (type : Value) (dimensions : List Value)
  deriving DecidableEq, Repr

/-- Enter and leave a declaration. -/
def declare (kind : Kind) (d : RawDeclaration) : List (Event Node) :=
  [.enter kind { declaration := some d }, .leave kind]

def routineKind (isFunction : Bool) : Kind := if isFunction then .function else .task

/-- One declarator for each name, with the dimensions in the same place if there are any there. -/
def declarators (names dimensions : List Value) : List RawDeclarator :=
  names.zipWith (fun name dimensions => { name, dimensions })
    (dimensions ++ List.replicate (names.length - dimensions.length) .null)

@[simp] theorem length_declarators (names dimensions : List Value) :
    (declarators names dimensions).length = names.length := by
  simp only [declarators, List.length_zipWith, List.length_append, List.length_replicate]
  omega

/-- The events that a call adds. -/
def Call.events : Call → List (Event Node)
  | add phase kind node => [⟨phase, kind, node⟩]
  | comment text => [.enter .comment { text }, .leave .comment]
  | enterModule name => [.enter .module { identifier := name }]
  | leaveModule => [.leave .module]
  | enterRoutine isFunction name => [.enter (routineKind isFunction) { identifier := name }]
  | leaveRoutine isFunction => [.leave (routineKind isFunction)]
  | ansiPort name direction type dimensions =>
    declare .ansiPort { type, direction, declarators := [{ name, dimensions }] }
  | portDeclaration names direction type dimensions =>
    declare .portDeclaration { type, direction, declarators := declarators names dimensions }
  | parameter names default type dimensions =>
    declare .parameterDeclaration
      { type, declarators := names.map fun name => { name, dimensions, default } }
  | signal names type dimensions =>
    declare .signalDeclaration { type, declarators := declarators names dimensions }

/-- The events of a sequence of calls. -/
def build (calls : List Call) : List (Event Node) := calls.flatMap Call.events

@[simp] theorem build_nil : build [] = [] := rfl

@[simp] theorem build_cons (c : Call) (cs : List Call) :
    build (c :: cs) = c.events ++ build cs := rfl

end DesignDoc.Recording
