/-! Binary floating point numbers of 64 bits, held as their bits, so that equality is equality
of representations: the two zeros differ and a NaN equals itself. Reading a decimal is exact
arithmetic on natural numbers, rounded once. -/

namespace DesignDoc.Decimal

def twoTo (n : Nat) : Nat := Nat.pow 2 n

def tenTo (n : Nat) : Nat := Nat.pow 10 n

structure Binary64 where
  bits : UInt64
  deriving DecidableEq, Repr

namespace Binary64

/-- The bits of the magnitude of infinity; a larger magnitude is a NaN. -/
def infinityBits : Nat := 0x7FF * twoTo 52

def signBit : Nat := twoTo 63

/-- The number of a sign and the bits of a magnitude. -/
def ofMagnitude (negative : Bool) (magnitude : Nat) : Binary64 :=
  ⟨UInt64.ofNat (if negative then signBit + magnitude else magnitude)⟩

def nan : Binary64 := ofMagnitude false (infinityBits + twoTo 51)

def infinity (negative : Bool) : Binary64 := ofMagnitude negative infinityBits

def isNegative (x : Binary64) : Bool := signBit ≤ x.bits.toNat

def magnitude (x : Binary64) : Nat := x.bits.toNat % signBit

def isZero (x : Binary64) : Bool := x.magnitude == 0

def isNaN (x : Binary64) : Bool := infinityBits < x.magnitude

def isInfinite (x : Binary64) : Bool := x.magnitude == infinityBits

/-- A finite magnitude is `m * 2 ^ q` for this `m` and `q`. -/
def parts (x : Binary64) : Nat × Int :=
  let exponent : Nat := x.magnitude / twoTo 52
  let fraction : Nat := x.magnitude % twoTo 52
  if exponent = 0 then (fraction, -1074) else (fraction + twoTo 52, (exponent : Int) - 1075)

/-! ### Rounding -/

/-- The integer nearest to `n / d`; of two, the even one. -/
def roundDiv (n d : Nat) : Nat :=
  let q := n / d
  let r := n % d
  if 2 * r < d then q else if d < 2 * r then q + 1 else q + q % 2

/-- The bits of the magnitude nearest to the positive rational `n / d`. The significand is
scaled to 53 bits, or to the fixed step of the subnormal numbers; a carry out of it moves into
the exponent by itself, since the fields of the bits are adjacent. -/
def magnitudeOfRatio (n d : Nat) : Nat :=
  let estimate : Int := (n.log2 : Int) - d.log2
  let short := n * twoTo (-estimate).toNat < d * twoTo estimate.toNat
  let top := if short then estimate - 1 else estimate
  let q := max (top - 52) (-1074)
  let m := roundDiv (n * twoTo (-q).toNat) (d * twoTo q.toNat)
  min ((q + 1074).toNat * twoTo 52 + m) infinityBits

/-- The number nearest to `digits * 10 ^ exponent`. A magnitude of more than four hundred
decimal places is far outside the range and is not computed. -/
def ofDecimal (negative : Bool) (digits : Nat) (exponent : Int) : Binary64 :=
  let places := ((Nat.toDigits 10 digits).length : Int) + exponent
  if digits = 0 || places < -400 then ofMagnitude negative 0
  else if 400 < places then infinity negative
  else ofMagnitude negative
    (magnitudeOfRatio (digits * tenTo exponent.toNat) (tenTo (-exponent).toNat))

end Binary64

end DesignDoc.Decimal
