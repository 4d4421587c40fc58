import DesignDoc.Text.Blank

/-! Physical lines. A line ends at any of eleven terminators, of which `\r\n` is the one of two
characters, and a terminator at the end of the text opens no further line. -/

namespace DesignDoc.Text

/-- A character that ends a line. All of them are blank; U+001F is blank and ends none. -/
def isBreak (c : Char) : Bool :=
  let n := c.toNat
  (0x0A ≤ n && n ≤ 0x0D) || (0x1C ≤ n && n ≤ 0x1E) || n == 0x85 || n == 0x2028 || n == 0x2029

theorem isBlank_of_isBreak {c : Char} (h : isBreak c = true) : isBlank c = true := by
  simp only [isBreak, isBlank, Bool.or_eq_true, Bool.and_eq_true, decide_eq_true_eq, beq_iff_eq]
    at h ⊢
  omega

/-- Put a character in front of the first line. -/
def extendFirst (c : Char) : List (List Char) → List (List Char)
  | [] => [[c]]
  | l :: ls => (c :: l) :: ls

/-- The lines of a text without their terminators. -/
def lines : List Char → List (List Char)
  | [] => []
  | '\r' :: '\n' :: s => [] :: lines s
  | c :: s => if isBreak c then [] :: lines s else extendFirst c (lines s)

@[simp] theorem lines_nil : lines [] = [] := by simp [lines]

@[simp] theorem lines_crlf (s : List Char) : lines ('\r' :: '\n' :: s) = [] :: lines s := by
  simp [lines]

theorem lines_cons_of_not_break {c : Char} (h : isBreak c = false) (s : List Char) :
    lines (c :: s) = extendFirst c (lines s) := by
  rw [lines]
  · simp [h]
  · rintro r rfl
    simp [isBreak] at h

/-- A text as it is read from a file: each of `\r\n` and `\r` becomes `\n`. -/
def unifyNewlines : List Char → List Char
  | [] => []
  | '\r' :: '\n' :: s => '\n' :: unifyNewlines s
  | c :: s => (if c = '\r' then '\n' else c) :: unifyNewlines s

end DesignDoc.Text
