import DesignDoc.Tree.Basic
import DesignDoc.Event.Basic

/-! The events of a syntax tree. Comments hang on the token that follows them, so the comments of
a documented construct hang on its first token; they are told before the construct is entered, and
the token is passed over later. -/

namespace DesignDoc.Tree

open DesignDoc.Event

/-- The kind of event that a kind of node gives rise to. -/
def eventKind? : String → Option Kind
  | "ModuleDeclaration" => some .module
  | "ImplicitAnsiPort" => some .ansiPort
  | "ExplicitAnsiPort" => some .ansiPort
  | "FunctionPort" => some .ansiPort
  | "PortDeclaration" => some .portDeclaration
  | "ParameterPortList" => some .parameterPortList
  | "ParameterDeclaration" => some .parameterDeclaration
  | "TypeParameterDeclaration" => some .parameterDeclaration
  | "DataDeclaration" => some .signalDeclaration
  | "NetDeclaration" => some .signalDeclaration
  | "FunctionDeclaration" => some .function
  | "TaskDeclaration" => some .task
  | _ => none

/-- Each comment is entered and left. -/
def commentEvents (trivia : List Trivia) : List (Event Tree) :=
  (trivia.filter Trivia.isComment).flatMap fun t =>
    [.enter .comment (.comment t.text), .leave .comment (some (.comment t.text))]

mutual
/-- The events of a tree, and whether the comments of the next token are told already. -/
def walk (told : Bool) : Tree → List (Event Tree) × Bool
  | .node kind children parts =>
    match eventKind? kind with
    | none => walkAll told children
    | some k =>
      let before := if told then [] else commentEvents ((firstTriviaIn children).getD [])
      let (inner, told) := walkAll true children
      (before ++ .enter k (.node kind children parts) :: inner
        ++ [.leave k (some (.node kind children parts))], told)
  | _ => ([], told)
def walkAll (told : Bool) : List Tree → List (Event Tree) × Bool
  | [] => ([], told)
  | .token _ _ trivia :: ts =>
    let (rest, after) := walkAll false ts
    ((if told then [] else commentEvents trivia) ++ rest, after)
  | t :: ts =>
    let (first, between) := walk told t
    let (rest, after) := walkAll between ts
    (first ++ rest, after)
end

theorem walk_node_of_none {kind : String} (h : eventKind? kind = none) (told : Bool)
    (children : List Tree) (parts : List (String × Tree)) :
    walk told (.node kind children parts) = walkAll told children := by
  simp only [walk, h]

theorem walk_node_of_some {kind : String} {k : Kind} (h : eventKind? kind = some k) (told : Bool)
    (children : List Tree) (parts : List (String × Tree)) :
    walk told (.node kind children parts) =
      ((if told then [] else commentEvents ((firstTriviaIn children).getD []))
          ++ .enter k (.node kind children parts) :: (walkAll true children).1
          ++ [.leave k (some (.node kind children parts))],
        (walkAll true children).2) := by
  simp only [walk, h]

theorem walkAll_token (told : Bool) (kind text : String) (trivia : List Trivia)
    (ts : List Tree) :
    walkAll told (.token kind text trivia :: ts) =
      ((if told then [] else commentEvents trivia) ++ (walkAll false ts).1,
        (walkAll false ts).2) := by
  simp only [walkAll]

theorem walkAll_cons {t : Tree} (h : t.isToken = false) (told : Bool) (ts : List Tree) :
    walkAll told (t :: ts) =
      ((walk told t).1 ++ (walkAll (walk told t).2 ts).1, (walkAll (walk told t).2 ts).2) := by
  cases t with
  | token => cases h
  | _ => simp only [walkAll]

/-- The events of a whole tree. -/
def events (t : Tree) : List (Event Tree) := (walk false t).1

/-- The question that the root of a tree does not answer. A walk starts at a node: nothing else has
children, or a first token where the kind is a documented one, and only tokens and nodes have a
kind. -/
def breakOff? : Tree → Option Question
  | .node _ _ _ => none
  | .token kind _ _ => some (if (eventKind? kind).isSome then .firstToken else .children)
  | _ => some .kind

end DesignDoc.Tree
