import DesignDoc.Annotation.Item
import DesignDoc.Text.Lines

/-! The grammar of one physical line of an annotation comment. Blanks and at most one asterisk
lead the line in; what follows is read as a simple tag, else as a named tag, else as a transition,
and as plain text if it is none of these. -/

namespace DesignDoc.Annotation.Line

open DesignDoc.Text

/-- What a line says: the line without its leading blanks, one asterisk and the blanks after
it. -/
def content (s : List Char) : List Char :=
  match trimStart s with
  | '*' :: t => trimStart t
  | t => t

/-! ### Identifiers -/

/-- Identifiers are made of ASCII characters. -/
def isIdentifierStart (c : Char) : Bool := c.isAlpha || c == '_'

def isIdentifierRest (c : Char) : Bool := c.isAlphanum || c == '_' || c == '$'

/-- The longest identifier at the start of a text, and the rest. -/
def identifier? : List Char → Option (List Char × List Char)
  | [] => none
  | c :: s =>
    if isIdentifierStart c then
      some (c :: s.takeWhile isIdentifierRest, s.dropWhile isIdentifierRest)
    else none

/-- A whole text that is one identifier. -/
def IsIdentifier (s : List Char) : Prop := identifier? s = some (s, [])

instance (s : List Char) : Decidable (IsIdentifier s) :=
  inferInstanceAs (Decidable (_ = _))

/-- Nothing is lost between an identifier and what follows it. -/
theorem eq_append_of_identifier? {s name rest : List Char} (h : identifier? s = some (name, rest)) :
    s = name ++ rest := by
  cases s with
  | nil => simp [identifier?] at h
  | cons c s =>
    simp only [identifier?] at h
    split at h
    · obtain ⟨rfl, rfl⟩ := Prod.mk.inj (Option.some.inj h)
      simp [List.takeWhile_append_dropWhile]
    · simp at h

/-! ### The three tagged forms -/

/-- The text of a tag: a space or a colon, then anything without a line feed, which may stand at
the very end only. Blanks at the end are dropped. -/
def payload? : List Char → Option String
  | [] => none
  | c :: s =>
    if (c == ' ' || c == ':') && ! s.dropLast.contains '\n' then some (String.ofList (trimEnd s))
    else none

/-- `@tag text` -/
def simple? : List Char → Option Item
  | '@' :: s => do
    let (word, s) ← identifier? s
    let tag ← SimpleTag.ofKeyword? (String.ofList word)
    let text ← payload? s
    return .simple tag text
  | _ => none

/-- `@tag name text` -/
def named? : List Char → Option Item
  | '@' :: s => do
    let (word, s) ← identifier? s
    let tag ← NamedTag.ofKeyword? (String.ofList word)
    match s with
    | ' ' :: s =>
      let (name, s) ← identifier? s
      let text ← payload? s
      return .named tag (String.ofList name) text
    | _ => none
  | _ => none

/-- `@source -> target text` -/
def transition? : List Char → Option Item
  | '@' :: s => do
    let (source, s) ← identifier? s
    match trimStart s with
    | '-' :: '>' :: s =>
      let (target, s) ← identifier? (trimStart s)
      let text ← payload? s
      return .transition (String.ofList source) (String.ofList target) text
    | _ => none
  | _ => none

/-- The item of the first form that a line has. -/
def tagged? (s : List Char) : Option Item :=
  simple? s <|> named? s <|> transition? s

/-- The item of a line; a line that says nothing has none. -/
def item? (line : List Char) : Option Item :=
  match content line with
  | [] => none
  | s => some ((tagged? s).getD (.plain (String.ofList (trimEnd s))))

theorem item?_eq_none_iff (line : List Char) : item? line = none ↔ content line = [] := by
  unfold item?
  split <;> simp_all

end DesignDoc.Annotation.Line
