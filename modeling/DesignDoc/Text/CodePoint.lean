/-! Code points. A text in UTF-16 can hold one half of a surrogate pair without the other, and an
escape can write one, but no character is such a half. Texts hold a half in two characters, a mark
and a character of a private range; the mark itself is held twice. A reader of a text that counts
or shows its characters goes through its code points. -/

namespace DesignDoc.Text

def isHighSurrogate (n : Nat) : Bool := 0xD800 ≤ n && n ≤ 0xDBFF

def isLowSurrogate (n : Nat) : Bool := 0xDC00 ≤ n && n ≤ 0xDFFF

def isSurrogate (n : Nat) : Bool := 0xD800 ≤ n && n ≤ 0xDFFF

/-- The code point of the two halves of a pair. -/
def ofPair (high low : Nat) : Nat := 0x10000 + (high - 0xD800) * 0x400 + (low - 0xDC00)

/-- The distance from the surrogates to the private range U+10B800 to U+10BFFF. -/
def surrogateShift : Nat := 0xFE000

/-- The character before that range. -/
def mark : Char := Char.ofNat 0x10B7FF

/-- The characters that hold a code point. -/
def spell (n : Nat) : List Char :=
  if isSurrogate n then [mark, Char.ofNat (n + surrogateShift)]
  else if Char.ofNat n = mark then [mark, mark]
  else [Char.ofNat n]

/-- The code points that a text holds. -/
def codePoints : List Char → List Nat
  | [] => []
  | [c] => [c.toNat]
  | c :: d :: s =>
    if c = mark then (if d = mark then mark.toNat else d.toNat - surrogateShift) :: codePoints s
    else c.toNat :: codePoints (d :: s)

/-- Texts are ordered by their code points: the first does not come after the second. -/
def inOrder (s t : String) : Bool :=
  ! (codePoints t.toList).lex (codePoints s.toList) fun m n => m < n

/-- The text that holds the characters of a string, none of which is a half of a pair. -/
def hold (s : String) : String := String.ofList (s.toList.flatMap fun c => spell c.toNat)

/-- The string of the characters that a text holds; halves of pairs have no place in it. -/
def release (s : String) : String :=
  String.ofList (((codePoints s.toList).filter (! isSurrogate ·)).map Char.ofNat)

end DesignDoc.Text
