import DesignDoc.Json.Value
import DesignDoc.Text.CodePoint
import DesignDoc.Text.Digit

/-! The tokens of a JSON text. A text is cut from left to right; a string that cannot be
completed and a character that starts nothing are tokens too, the last ones, so that the reader
can say what is wrong in the place where it stands. -/

namespace DesignDoc.Json

open DesignDoc.Decimal DesignDoc.Text

/-- What is wrong with a text that is not JSON. -/
inductive Problem where
  | byteOrderMark
  | value
  | comma
  | colon
  | key
  | openString
  | control
  | escape
  | codePoint
  | extra
  deriving DecidableEq, Repr

def Problem.message : Problem → String
  | byteOrderMark => "Unexpected UTF-8 BOM (decode using utf-8-sig)"
  | value => "Expecting value"
  | comma => "Expecting ',' delimiter"
  | colon => "Expecting ':' delimiter"
  | key => "Expecting property name enclosed in double quotes"
  | openString => "Unterminated string starting at"
  | control => "Invalid control character at"
  | escape => "Invalid \\escape"
  | codePoint => "Invalid \\uXXXX escape"
  | extra => "Extra data"

inductive Token where
  | openArray
  | closeArray
  | openObject
  | closeObject
  | comma
  | colon
  | text (s : String)
  | scalar (v : Value)
  /-- A whole number with too many digits. -/
  | overlong (e : Overlong)
  /-- A string that is not completed, with the offset of what is wrong in it. -/
  | broken (p : Problem) (offset : Nat)
  /-- A character that starts no token. -/
  | stray
  deriving DecidableEq, Repr

/-- A token and the offset of its first character. -/
structure Lexeme where
  token : Token
  offset : Nat
  deriving DecidableEq, Repr

/-- The four characters that may stand between tokens. -/
def isSpace (c : Char) : Bool := c == ' ' || c == '\t' || c == '\n' || c == '\r'

/-! ### Strings -/

def hexValue? (c : Char) : Option Nat :=
  if c.isDigit then some (c.toNat - '0'.toNat)
  else if 'a' ≤ c && c ≤ 'f' then some (c.toNat - 'a'.toNat + 10)
  else if 'A' ≤ c && c ≤ 'F' then some (c.toNat - 'A'.toNat + 10)
  else none

/-- The number written by the first four characters in hexadecimal. -/
def hexQuad? (s : List Char) : Option Nat :=
  if (s.take 4).length < 4 then none
  else (s.take 4).foldlM (fun n c => (hexValue? c).map (16 * n + ·)) 0

/-- A problem in an escape, with its distance from the backslash. -/
abbrev EscapeError := Problem × Nat

/-- The escape whose backslash and `u` are read already: its code point and the number of
characters it takes after the `u`. Two escapes in a row can write the halves of one pair. Four
digits must be followed by something, and a pair too. -/
def readCodePoint (s : List Char) : Except EscapeError (Nat × Nat) :=
  match hexQuad? s, s.drop 4 with
  | none, _ | _, [] => .error (.codePoint, 1)
  | some high, rest =>
    match rest with
    | '\\' :: 'u' :: t =>
      if isHighSurrogate high && ! (t.drop 4).isEmpty then
        match hexQuad? t with
        | none => .error (.codePoint, 7)
        | some low =>
          if isLowSurrogate low then .ok (ofPair high low, 10) else .ok (high, 4)
      else .ok (high, 4)
    | _ => .ok (high, 4)

/-- The character that a letter after a backslash stands for. -/
def shortEscape? : Char → Option Char
  | '"' => some '"'
  | '\\' => some '\\'
  | '/' => some '/'
  | 'b' => some '\x08'
  | 'f' => some '\x0c'
  | 'n' => some '\n'
  | 'r' => some '\r'
  | 't' => some '\t'
  | _ => none

/-- The escape whose backslash is read already: its code point in characters and the number of
characters it takes after the backslash. -/
def readEscape (c : Char) (s : List Char) : Except EscapeError (List Char × Nat) :=
  if c = 'u' then (readCodePoint s).map fun (x, n) => (spell x, n + 1)
  else match shortEscape? c with
    | some x => .ok ([x], 1)
    | none => .error (.escape, 0)

/-- A string whose opening quote stands at `start`, where `read` characters after it are read
already and stand reversed in `done`: the string and the number of characters after the opening
quote, the closing one included. -/
def readText (start read : Nat) (done : List Char) (s : List Char) :
    Except (Problem × Nat) (String × Nat) :=
  match s with
  | [] => .error (.openString, start)
  | '"' :: _ => .ok (String.ofList done.reverse, read + 1)
  | '\\' :: [] => .error (.openString, start)
  | '\\' :: c :: s =>
    match readEscape c s with
    | .error (p, distance) => .error (p, start + 1 + read + distance)
    | .ok (x, n) => readText start (read + 1 + n) (x.reverse ++ done) ((c :: s).drop n)
  | c :: s =>
    if c.toNat < 0x20 then .error (.control, start + 1 + read)
    else readText start (read + 1) (c :: done) s
termination_by s.length
decreasing_by all_goals simp only [List.length_drop, List.length_cons]; omega

/-! ### Numbers -/

/-- The exponent of a numeral, if the text starts with one: whether it is negative, its digits
and the number of its characters. -/
def readExponent? : List Char → Option (Bool × List Char × Nat)
  | [] => none
  | e :: s =>
    if e = 'e' || e = 'E' then
      let signed := s.head? == some '-' || s.head? == some '+'
      let digits := (if signed then s.drop 1 else s).takeWhile Char.isDigit
      if digits.isEmpty then none
      else some (s.head? == some '-', digits, 1 + (if signed then 1 else 0) + digits.length)
    else none

/-- The longest numeral at the start of a text, with the number of its characters. It is a whole
number if it has neither a fraction nor an exponent, and a leading zero stands alone. -/
def readNumeral? (s : List Char) : Option (Token × Nat) :=
  let negative := s.head? == some '-'
  let s := if negative then s.drop 1 else s
  let whole := if s.head? == some '0' then ['0'] else s.takeWhile Char.isDigit
  if whole.isEmpty then none
  else
    let s := s.drop whole.length
    let fraction := if s.head? == some '.' then (s.drop 1).takeWhile Char.isDigit else []
    let pointed := if fraction.isEmpty then 0 else 1 + fraction.length
    let exponent? := readExponent? (s.drop pointed)
    let length := (if negative then 1 else 0) + whole.length + pointed
      + (exponent?.map (·.2.2)).getD 0
    if fraction.isEmpty && exponent?.isNone then
      match integerOf negative whole with
      | .ok n => some (.scalar (.int n), length)
      | .error e => some (.overlong e, length)
    else
      let shift : Int := match exponent? with
        | some (true, digits, _) => -(numberOf digits : Int)
        | some (false, digits, _) => numberOf digits
        | none => 0
      let x := Binary64.ofDecimal negative (numberOf (whole ++ fraction)) (shift - fraction.length)
      some (.scalar (.real x), length)

/-! ### Tokens -/

/-- The values that are written as words. -/
def wordValues : List (String × Value) :=
  [("null", .null), ("true", .bool true), ("false", .bool false), ("NaN", .real .nan),
   ("Infinity", .real (.infinity false)), ("-Infinity", .real (.infinity true))]

/-- The token that starts with `c` at `offset`, and the number of its further characters. -/
def scan (offset : Nat) (c : Char) (s : List Char) : Token × Nat :=
  match c with
  | '[' => (.openArray, 0)
  | ']' => (.closeArray, 0)
  | '\x7b' => (.openObject, 0)
  | '\x7d' => (.closeObject, 0)
  | ',' => (.comma, 0)
  | ':' => (.colon, 0)
  | '"' =>
    match readText offset 0 [] s with
    | .ok (t, n) => (.text t, n)
    | .error (p, k) => (.broken p k, 0)
  | _ =>
    match wordValues.find? fun w => w.1.toList.isPrefixOf (c :: s) with
    | some (w, v) => (.scalar v, w.length - 1)
    | none =>
      match readNumeral? (c :: s) with
      | some (t, n) => (t, n - 1)
      | none => (.stray, 0)

/-- Nothing is cut off after a token that cannot stand in any text. -/
def Token.isLast : Token → Bool
  | broken _ _ | stray => true
  | _ => false

/-- The tokens of a text that starts at `offset`. -/
def lex (offset : Nat) : List Char → List Lexeme
  | [] => []
  | c :: s =>
    if isSpace c then lex (offset + 1) s
    else
      ⟨(scan offset c s).1, offset⟩ ::
        if (scan offset c s).1.isLast then []
        else lex (offset + 1 + (scan offset c s).2) (s.drop (scan offset c s).2)
termination_by s => s.length
decreasing_by all_goals simp only [List.length_drop, List.length_cons]; omega

end DesignDoc.Json
