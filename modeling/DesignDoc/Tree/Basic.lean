import DesignDoc.Tree.CleanText

/-! Syntax trees. A tree is built of tokens, which carry the comments written before them, and of
nodes with children in source order; some parts of a node can be reached by name. Parts may be
absent and may be sequences of trees. -/

namespace DesignDoc

/-- Text before a token that is not part of the code. -/
structure Trivia where
  kind : String
  text : String
  deriving DecidableEq, Repr

def Trivia.isComment (t : Trivia) : Bool := t.kind == "LineComment" || t.kind == "BlockComment"

inductive Tree where
  | absent
  | comment (raw : String)
  /-- The text of a token has its trivia in it. -/
  | token (kind text : String) (trivia : List Trivia)
  | node (kind : String) (children : List Tree) (parts : List (String × Tree))
  | seq (members : List Tree)
  deriving Repr, Inhabited

namespace Tree

def isAbsent : Tree → Bool
  | absent => true
  | _ => false

def isToken : Tree → Bool
  | token _ _ _ => true
  | _ => false

theorem eq_token_of_isToken {t : Tree} (h : t.isToken = true) :
    ∃ kind text trivia, t = token kind text trivia := by
  cases t with
  | token kind text trivia => exact ⟨kind, text, trivia, rfl⟩
  | _ => cases h

/-- The part of a node under a name. -/
def part? (name : String) : Tree → Option Tree
  | node _ _ parts => parts.lookup name
  | _ => none

/-- The part of a node under a name; a part that it does not have is absent. -/
def part (name : String) (t : Tree) : Tree := (t.part? name).getD absent

/-- The trees that a tree consists of. Only nodes and sequences consist of trees. -/
def members? : Tree → Option (List Tree)
  | node _ children _ => some children
  | seq members => some members
  | _ => none

mutual
/-- The source text of a tree. -/
def source : Tree → List Char
  | .absent => []
  | .comment raw => raw.toList
  | .token _ text _ => text.toList
  | .node _ children _ => sourceAll children
  | .seq members => sourceAll members
def sourceAll : List Tree → List Char
  | [] => []
  | t :: ts => t.source ++ sourceAll ts
end

mutual
/-- The trivia of the first token of a tree. -/
def firstTrivia : Tree → Option (List Trivia)
  | .token _ _ trivia => some trivia
  | .node _ children _ => firstTriviaIn children
  | _ => none
def firstTriviaIn : List Tree → Option (List Trivia)
  | [] => none
  | t :: ts => t.firstTrivia <|> firstTriviaIn ts
end

mutual
/-- The text of a tree in a document: a comment is kept but for the blanks around it, the members
of a sequence stand side by side, and code is cleaned. -/
def text : Tree → String
  | .absent => ""
  | .comment raw => Text.trimmed raw
  | .seq members => Text.joined (memberTexts members)
  | t => cleanText t.source
def memberTexts : List Tree → List String
  | [] => []
  | t :: ts => t.text :: memberTexts ts
end

/-- An empty text is absent. -/
def text? (t : Tree) : Option String := Text.nonempty? t.text

end Tree

end DesignDoc
