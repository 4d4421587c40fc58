import DesignDoc.Tree.Declaration

/-! Requests to the parser that turns source text into syntax trees. The parser itself is no part
of the library: it is a function that may or may not be there, and that may refuse a request. -/

namespace DesignDoc.Generator

/-- What the preprocessor of the parser is told. -/
structure Preprocessing where
  defines : List String
  includeDirs : List String
  deriving DecidableEq, Repr

/-- The parser is told of its preprocessor only if there is something to tell. -/
def preprocessing? (includeDirs defines : List String) : Option Preprocessing :=
  if includeDirs.isEmpty && defines.isEmpty then none else some { defines, includeDirs }

inductive Request where
  /-- Parse a text. With a preprocessor, the text needs a name. -/
  | text (text : String) (settings : Option (String × Preprocessing))
  /-- Parse a file. -/
  | file (path : String) (settings : Option Preprocessing)
  deriving DecidableEq, Repr

/-- The request for a text of a given name; a text without a name is called by a stock name. -/
def Request.ofText (text name : String) (includeDirs defines : List String) : Request :=
  .text text ((preprocessing? includeDirs defines).map
    fun p => (if name = "" then "source" else name, p))

def Request.ofFile (path : String) (includeDirs defines : List String) : Request :=
  .file path (preprocessing? includeDirs defines)

/-- The source of a syntax tree. -/
def sourceOfTree (name : String) (t : Tree) : Source Tree :=
  { name, events := t.events, breakOff := t.breakOff? }

/-- What a source of syntax trees is opened on. -/
inductive Subject where
  | text (text : String)
  | file (path : String)
  /-- A tree that is parsed already. -/
  | tree (t : Tree)

/-- What may be said of a subject, where silence differs from an empty word. -/
structure Settings where
  name : Option String := none
  includeDirs : Option (List String) := none
  defines : Option (List String) := none
  deriving DecidableEq, Repr

/-- A file is named by its path and takes no other name; a tree is past its preprocessing. -/
def Subject.accepts (s : Subject) (x : Settings) : Bool :=
  match s with
  | text _ => true
  | file _ => x.name.isNone
  | tree _ => x.includeDirs.isNone && x.defines.isNone

/-- The name of the source of a subject. -/
def Subject.name (s : Subject) (x : Settings) : String :=
  match s with
  | file path => path
  | _ => x.name.getD ""

/-- The tree of a subject, or the request to the parser that yields it. -/
def Subject.demand (s : Subject) (x : Settings) : Request ⊕ Tree :=
  let includeDirs := x.includeDirs.getD []
  let defines := x.defines.getD []
  match s with
  | text t => .inl (.ofText t (x.name.getD "") includeDirs defines)
  | file path => .inl (.ofFile path includeDirs defines)
  | tree t => .inr t

end DesignDoc.Generator
