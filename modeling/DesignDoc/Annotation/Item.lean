/-! Annotation items, the units that a comment is read into. An item is a line of free text, the
text of a tag, the text of a tag with a name, or a transition between two states. -/

namespace DesignDoc.Annotation

/-- The tags that are followed by a text. -/
inductive SimpleTag where
  | brief
  | note
  | ref
  | see
  | sample
  | wave
  | author
  | result
  | machine
  deriving DecidableEq, Repr

/-- The tags that are followed by a name and a text. -/
inductive NamedTag where
  | revision
  | port
  | param
  | state
  deriving DecidableEq, Repr

inductive Item where
  | plain (text : String)
  | simple (tag : SimpleTag) (text : String)
  | named (tag : NamedTag) (name text : String)
  | transition (source target text : String)
  deriving DecidableEq, Repr

/-! ### Keywords -/

namespace SimpleTag

def all : List SimpleTag :=
  [brief, note, ref, see, sample, wave, author, result, machine]

def keyword : SimpleTag → String
  | brief => "brief"
  | note => "note"
  | ref => "ref"
  | see => "see"
  | sample => "example"
  | wave => "wave"
  | author => "author"
  | result => "return"
  | machine => "fsm"

def ofKeyword? (s : String) : Option SimpleTag := all.find? (·.keyword == s)

theorem ofKeyword?_keyword (t : SimpleTag) : ofKeyword? t.keyword = some t := by
  cases t <;> decide

end SimpleTag

namespace NamedTag

def all : List NamedTag := [revision, port, param, state]

def keyword : NamedTag → String
  | revision => "rev"
  | port => "port"
  | param => "param"
  | state => "state"

def ofKeyword? (s : String) : Option NamedTag := all.find? (·.keyword == s)

theorem ofKeyword?_keyword (t : NamedTag) : ofKeyword? t.keyword = some t := by
  cases t <;> decide

end NamedTag

/-! ### The text of an item -/

namespace Item

/-- A summary is what the tag `@brief` introduces; untagged text at the start of a comment is one
too. -/
abbrev summary (text : String) : Item := .simple .brief text

def text : Item → String
  | plain t | simple _ t | named _ _ t | transition _ _ t => t

/-- The same item with another text. -/
def withText (t : String) : Item → Item
  | plain _ => plain t
  | simple tag _ => simple tag t
  | named tag name _ => named tag name t
  | transition source target _ => transition source target t

/-- An item grows at the end of its text. -/
def append (i : Item) (more : String) : Item := i.withText (i.text ++ more)

@[simp] theorem text_withText (t : String) (i : Item) : (i.withText t).text = t := by
  cases i <;> rfl

@[simp] theorem text_append (i : Item) (more : String) : (i.append more).text = i.text ++ more := by
  simp [append]

theorem append_append (i : Item) (s t : String) : (i.append s).append t = i.append (s ++ t) := by
  cases i <;> simp [append, withText, text, String.append_assoc]

def isPlain : Item → Bool
  | plain _ => true
  | _ => false

@[simp] theorem isPlain_append (i : Item) (more : String) :
    (i.append more).isPlain = i.isPlain := by
  cases i <;> rfl

def summary? : Item → Option String
  | simple .brief t => some t
  | _ => none

def author? : Item → Option String
  | simple .author t => some t
  | _ => none

def isSummary (i : Item) : Bool := i.summary?.isSome

/-- Items that document a port or a parameter by its name. -/
def isNameDoc : Item → Bool
  | named .port _ _ | named .param _ _ => true
  | _ => false

/-- Items that tell of the file itself. -/
def isCredit : Item → Bool
  | simple .author _ | named .revision _ _ => true
  | _ => false

/-- Items that wait for the scope around a declaration. -/
def isScopeItem (i : Item) : Bool := i.isNameDoc || i.isCredit

end Item

/-- The texts of the summaries in a list of items, one on a line. -/
def joinedSummary (items : List Item) : String :=
  "\n".intercalate (items.filterMap Item.summary?)

end DesignDoc.Annotation
