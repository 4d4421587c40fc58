/-! Blank characters and what is cut away with them: trimming on either side of a text, and
the words of a text. A text is a list of characters here; the `String` forms at the end are
what the rest of the library calls. -/

namespace DesignDoc.Text

/-- The white space of Unicode together with the four ASCII separators U+001C to U+001F. Zero
width characters and the byte order mark are not blank. -/
def isBlank (c : Char) : Bool :=
  let n := c.toNat
  (0x09 ≤ n && n ≤ 0x0D) || (0x1C ≤ n && n ≤ 0x20) || n == 0x85 || n == 0xA0 || n == 0x1680 ||
    (0x2000 ≤ n && n ≤ 0x200A) || n == 0x2028 || n == 0x2029 || n == 0x202F || n == 0x205F ||
    n == 0x3000

theorem isBlank_space : isBlank ' ' = true := by decide

/-! ### Trimming -/

def trimStart (s : List Char) : List Char := s.dropWhile isBlank

def trimEnd (s : List Char) : List Char := (s.reverse.dropWhile isBlank).reverse

def trim (s : List Char) : List Char := trimEnd (trimStart s)

@[simp] theorem trimStart_nil : trimStart [] = [] := rfl

@[simp] theorem trimEnd_nil : trimEnd [] = [] := rfl

@[simp] theorem trim_nil : trim [] = [] := rfl

theorem trimStart_cons_of_blank {c : Char} (h : isBlank c = true) (s : List Char) :
    trimStart (c :: s) = trimStart s := by
  simp [trimStart, h]

theorem trimStart_cons_of_not_blank {c : Char} (h : isBlank c = false) (s : List Char) :
    trimStart (c :: s) = c :: s := by
  simp [trimStart, h]

theorem trimEnd_concat_of_not_blank {c : Char} (h : isBlank c = false) (s : List Char) :
    trimEnd (s ++ [c]) = s ++ [c] := by
  simp [trimEnd, h]

/-! ### Words -/

/-- The maximal runs of characters that are not blank, in order. -/
def words (s : List Char) : List (List Char) :=
  (s.splitOnP isBlank).filter (! ·.isEmpty)

/-! ### Strings -/

/-- A string without the blanks at both of its ends. -/
def trimmed (s : String) : String := String.ofList (trim s.toList)

/-- The words of a string with one space between two of them. -/
def collapsed (s : List Char) : String :=
  " ".intercalate ((words s).map String.ofList)

/-- The texts that are not empty, with one space between two of them. -/
def joined (texts : List String) : String :=
  " ".intercalate (texts.filter (· ≠ ""))

/-- An empty text is no text. -/
def nonempty? (s : String) : Option String := if s = "" then none else some s

end DesignDoc.Text
