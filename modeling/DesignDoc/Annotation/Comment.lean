import DesignDoc.Annotation.Line
import DesignDoc.Annotation.Fold
import DesignDoc.Text.Quoted

/-! Annotation comments. A comment that starts with two slashes and an asterisk has the rest of
its first line as body; one that starts with a slash and two asterisks has all up to the first
asterisk and slash after them. Other comments carry no annotation. -/

namespace DesignDoc.Annotation

open DesignDoc.Text

/-- The items of a body, before folding. -/
def parseLines (body : List Char) : List Item := (lines body).filterMap Line.item?

/-- The items of a body. -/
def parseBody (body : List Char) : List Item := fold (parseLines body)

namespace Comment

/-- Why a comment has no body. -/
inductive Refusal where
  | unclosed
  | unmarked
  deriving DecidableEq, Repr

def Refusal.reason : Refusal → String
  | unclosed => "missing closing '*/'"
  | unmarked => "not an annotation comment"

/-- The beginning of a long text, with dots for what is left out. -/
def preview (text : String) : String :=
  let points := codePoints text.toList
  if points.length ≤ 40 then text
  else String.ofList ((points.take 37).flatMap spell ++ ['.', '.', '.'])

/-- A reason, and the text it is about. -/
def refusalMessage (text reason : String) : String := reason ++ ": " ++ quoted (preview text)

/-- The text before the first asterisk that a slash follows. -/
def untilClose? : List Char → Option (List Char)
  | [] => none
  | '*' :: '/' :: _ => some []
  | c :: s => (untilClose? s).map (c :: ·)

def body : List Char → Except Refusal (List Char)
  | '/' :: '/' :: '*' :: s => .ok ((lines s).headD [])
  | '/' :: '*' :: '*' :: s =>
    match untilClose? s with
    | some b => .ok b
    | none => .error .unclosed
  | _ => .error .unmarked

/-- The items of a comment; a comment without a body has none. -/
def items (text : String) : List Item :=
  match body text.toList with
  | .ok b => parseBody b
  | .error _ => []

end Comment

end DesignDoc.Annotation
