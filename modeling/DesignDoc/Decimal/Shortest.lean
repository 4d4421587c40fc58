import DesignDoc.Decimal.Binary64

/-! The shortest decimal that reads back as a given number, and how it is laid out in text.
The decimals that read back form an interval around the number; for one digit, two digits and
so on, the two neighbours of the number on the grid of that many digits are tried until one
lies in the interval. -/

namespace DesignDoc.Decimal

/-- A positive decimal `digits * 10 ^ exponent`. -/
structure Digits where
  digits : Nat
  exponent : Int
  deriving DecidableEq, Repr

namespace Shortest

/-- A positive number between the ends of the interval that rounds to it, all three over one
denominator. -/
structure Interval where
  low : Nat
  value : Nat
  high : Nat
  denominator : Nat
  closed : Bool

/-- The interval of a finite positive number. The gap below a power of two is half the gap
above it; the ends round to an even significand. -/
def interval (x : Binary64) : Interval :=
  let (m, q) := x.parts
  let scale := twoTo q.toNat
  let below := if m = twoTo 52 && -1074 < q then 1 else 2
  { low := (4 * m - below) * scale
    value := 4 * m * scale
    high := (4 * m + 2) * scale
    denominator := 4 * twoTo (-q).toNat
    closed := m % 2 = 0 }

/-- Whether the fraction `n / d` lies in the interval. -/
def Interval.contains (i : Interval) (n d : Nat) : Bool :=
  let a := n * i.denominator
  if i.closed then i.low * d ≤ a && a ≤ i.high * d else i.low * d < a && a < i.high * d

/-- The value rounded to a multiple of `10 ^ exponent`, if one of its two neighbours there lies
in the interval: the nearer one, and the even one of two equally near. -/
def onGrid? (i : Interval) (exponent : Int) : Option Digits :=
  let unit := tenTo exponent.toNat
  let parts := tenTo (-exponent).toNat
  let n := i.value * parts
  let d := i.denominator * unit
  let floor := n / d
  let twice := 2 * (n % d)
  let up := if twice = d then floor % 2 = 1 else d < twice
  let near := if up then floor + 1 else floor
  let far := if up then floor else floor + 1
  if i.contains (near * unit) parts then some ⟨near, exponent⟩
  else if i.contains (far * unit) parts then some ⟨far, exponent⟩
  else none

/-- The exponent of ten just above the value: `10 ^ (k - 1) ≤ value < 10 ^ k`. -/
def decimalPlace (i : Interval) : Int :=
  let whole := i.value / i.denominator
  if 0 < whole then (Nat.toDigits 10 whole).length
  else 1 - ((List.range 400).find? fun k => i.denominator ≤ i.value * tenTo k).getD 0

end Shortest

/-- Drop the zeros at the end of the digits. -/
def Digits.strip (fuel : Nat) (d : Digits) : Digits :=
  match fuel with
  | 0 => d
  | fuel + 1 =>
    if d.digits % 10 = 0 then Digits.strip fuel ⟨d.digits / 10, d.exponent + 1⟩ else d

/-- The shortest decimal of a finite positive number; seventeen digits always suffice. -/
def Binary64.shortest (x : Binary64) : Digits :=
  let i := Shortest.interval x
  let place := Shortest.decimalPlace i
  let found := (List.range 17).findSome? fun k : Nat => Shortest.onGrid? i (place - ((k : Int) + 1))
  (found.getD ⟨0, 0⟩).strip 20

/-! ### Layout -/

/-- The decisions of a text layout for numbers. -/
structure Layout where
  /-- Decimal exponents below this one are written with an exponent mark. -/
  leastPositional : Int
  /-- Decimal exponents from this one on are written with an exponent mark. -/
  firstExponential : Int
  /-- What follows a whole number in positional form. -/
  wholeSuffix : String
  /-- The least number of digits of an exponent. -/
  exponentWidth : Nat
  nan : String
  infinity : String

/-- Numbers in messages and in generated text. -/
def Layout.plain : Layout :=
  { leastPositional := -4, firstExponential := 16, wholeSuffix := ".0", exponentWidth := 2,
    nan := "nan", infinity := "inf" }

def Layout.exponent (l : Layout) (e : Int) : String :=
  let digits := toString e.natAbs
  (if e < 0 then "e-" else "e+")
    ++ String.ofList (List.replicate (l.exponentWidth - digits.length) '0') ++ digits

/-- The text of a positive decimal. -/
def Layout.digits (l : Layout) (d : Digits) : String :=
  let text := Nat.toDigits 10 d.digits
  let point : Int := text.length + d.exponent
  let str := String.ofList
  if l.leastPositional ≤ point - 1 && point - 1 < l.firstExponential then
    if point ≤ 0 then "0." ++ str (List.replicate (-point).toNat '0' ++ text)
    else if (text.length : Int) ≤ point then
      str (text ++ List.replicate (point - text.length).toNat '0') ++ l.wholeSuffix
    else str (text.take point.toNat) ++ "." ++ str (text.drop point.toNat)
  else
    let fraction := text.drop 1
    str (text.take 1) ++ (if fraction.isEmpty then "" else "." ++ str fraction)
      ++ l.exponent (point - 1)

def Layout.render (l : Layout) (x : Binary64) : String :=
  if x.isNaN then l.nan
  else
    (if x.isNegative then "-" else "")
      ++ (if x.isInfinite then l.infinity
          else if x.isZero then "0" ++ l.wholeSuffix
          else l.digits x.shortest)

end DesignDoc.Decimal
