import DesignDoc.Text.Blank
import DesignDoc.Text.Digit

/-! The bit width of a type. Only a type with one bracket group, which holds two numbers with a
colon between them, has a width; parameterised ranges and several packed dimensions have none. -/

namespace DesignDoc.Document

open DesignDoc.Text

namespace Width

/-- The contents of the bracket groups of a text, from left to right. A group reaches from an
opening bracket to the next closing one, so a second opening bracket is part of it. The argument
holds what is read of an open group, in reverse. -/
def groups : Option (List Char) → List Char → List (List Char)
  | _, [] => []
  | none, c :: s => if c = '[' then groups (some []) s else groups none s
  | some g, c :: s => if c = ']' then g.reverse :: groups none s else groups (some (c :: g)) s

/-- A sign and digits. -/
structure Numeral where
  negative : Bool
  digits : List Char
  deriving DecidableEq, Repr

/-- The longest numeral at the start of a text, and the rest. -/
def numeral? (s : List Char) : Option (Numeral × List Char) :=
  let negative := s.head? == some '-'
  let t := if negative then s.drop 1 else s
  if (t.takeWhile isDigit).isEmpty then none
  else some (⟨negative, t.takeWhile isDigit⟩, t.dropWhile isDigit)

/-- The two bounds of a range; blanks may stand around each of them. -/
def bounds? (group : List Char) : Option (Numeral × Numeral) := do
  let (msb, s) ← numeral? (trimStart group)
  match trimStart s with
  | ':' :: s =>
    let (lsb, s) ← numeral? (trimStart s)
    if trimStart s = [] then some (msb, lsb) else none
  | _ => none

/-- The number of bits from one bound to the other, in either direction. -/
def between (msb lsb : Numeral) : Except Overlong Int := do
  let m ← integerOf msb.negative msb.digits
  let l ← integerOf lsb.negative lsb.digits
  return (m - l).natAbs + 1

end Width

/-- The width that the packed range of a type describes, if it describes one. -/
def packedWidth (type : List Char) : Except Overlong (Option Int) :=
  match Width.groups none type with
  | [group] =>
    match Width.bounds? group with
    | some (msb, lsb) => (Width.between msb lsb).map some
    | none => .ok none
  | _ => .ok none

/-- A missing type has no width. -/
def packedWidth? : Option String → Except Overlong (Option Int)
  | none => .ok none
  | some type => packedWidth type.toList

end DesignDoc.Document
