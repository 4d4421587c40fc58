import DesignDoc.Text.Blank

/-! Source text without its comments. Line comments go first, each up to the end of its line, then
block comments, then every run of blanks becomes one space. -/

namespace DesignDoc.Tree

/-- Drop every text from two slashes to the end of the line; the line feed stays. The flag tells
whether such a comment is open. -/
def dropLineComments : Bool → List Char → List Char
  | _, [] => []
  | true, c :: s => if c = '\n' then c :: dropLineComments false s else dropLineComments true s
  | false, '/' :: '/' :: s => dropLineComments true s
  | false, c :: s => c :: dropLineComments false s

/-- Drop every text from a slash and an asterisk to the next asterisk and slash. What is read of
an open comment is held in reverse: it stays if the comment is never closed. -/
def dropBlockComments : Option (List Char) → List Char → List Char
  | none, [] => []
  | some held, [] => held.reverse
  | none, '/' :: '*' :: s => dropBlockComments (some ['*', '/']) s
  | some _, '*' :: '/' :: s => dropBlockComments none s
  | none, c :: s => c :: dropBlockComments none s
  | some held, c :: s => dropBlockComments (some (c :: held)) s

/-- The code of a source text, with one space between its words. -/
def cleanText (s : List Char) : String :=
  Text.collapsed (dropBlockComments none (dropLineComments false s))

end DesignDoc.Tree
