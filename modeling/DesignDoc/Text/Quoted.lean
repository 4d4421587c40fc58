import DesignDoc.Text.CodePoint
import DesignDoc.Text.Printable

/-! Quoted text, as it stands in messages. Single quotes enclose it, unless it has a single
quote in it and no double quote. A backslash marks the quote in use, the backslash itself and
the three usual controls; what is not printable is given by its code point in hexadecimal. -/

namespace DesignDoc.Text.Quoted

/-- The quote that encloses a text. -/
def delimiter (s : List Char) : Char :=
  if s.contains '\x27' && ! s.contains '"' then '"' else '\x27'

/-- At least `width` hexadecimal digits of `n`, in lower case. -/
def hex (width n : Nat) : List Char :=
  let digits := Nat.toDigits 16 n
  List.replicate (width - digits.length) '0' ++ digits

/-- A code point in the shortest of the three numeric escapes that hold it. -/
def numeric (n : Nat) : List Char :=
  if n < 0x100 then '\\' :: 'x' :: hex 2 n
  else if n < 0x10000 then '\\' :: 'u' :: hex 4 n
  else '\\' :: 'U' :: hex 8 n

/-- How one character is written between the quotes `quote`. -/
def escape (quote c : Char) : List Char :=
  if c = quote || c = '\\' then ['\\', c]
  else if c = '\n' then ['\\', 'n']
  else if c = '\r' then ['\\', 'r']
  else if c = '\t' then ['\\', 't']
  else if isPrintable c then [c]
  else numeric c.toNat

/-- How one code point is written; half of a surrogate pair is never printable. -/
def escapePoint (quote : Char) (n : Nat) : List Char :=
  if isSurrogate n then numeric n else escape quote (Char.ofNat n)

def encode (s : List Char) : List Char :=
  delimiter s :: (codePoints s).flatMap (escapePoint (delimiter s)) ++ [delimiter s]

end DesignDoc.Text.Quoted

namespace DesignDoc.Text

/-- A string in quotes. -/
def quoted (s : String) : String := String.ofList (Quoted.encode s.toList)

end DesignDoc.Text
