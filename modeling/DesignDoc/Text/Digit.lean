/-! Decimal digits of all scripts, and numbers written with them. -/

namespace DesignDoc.Text

/-- The code points of the decimal digits zero. The digits one to nine of the same script
follow each of them without a gap. -/
def digitZeros : List Nat :=
  [0x30, 0x660, 0x6F0, 0x7C0, 0x966, 0x9E6, 0xA66, 0xAE6, 0xB66, 0xBE6, 0xC66, 0xCE6, 0xD66,
   0xDE6, 0xE50, 0xED0, 0xF20, 0x1040, 0x1090, 0x17E0, 0x1810, 0x1946, 0x19D0, 0x1A80, 0x1A90,
   0x1B50, 0x1BB0, 0x1C40, 0x1C50, 0xA620, 0xA8D0, 0xA900, 0xA9D0, 0xA9F0, 0xAA50, 0xABF0,
   0xFF10, 0x104A0, 0x10D30, 0x11066, 0x110F0, 0x11136, 0x111D0, 0x112F0, 0x11450, 0x114D0,
   0x11650, 0x116C0, 0x11730, 0x118E0, 0x11950, 0x11C50, 0x11D50, 0x11DA0, 0x16A60, 0x16AC0,
   0x16B50, 0x1D7CE, 0x1D7D8, 0x1D7E2, 0x1D7EC, 0x1D7F6, 0x1E140, 0x1E2F0, 0x1E950, 0x1FBF0]

/-- The value of a decimal digit of any script. -/
def digitValue? (c : Char) : Option Nat :=
  (digitZeros.find? fun z => z ≤ c.toNat && c.toNat ≤ z + 9).map (c.toNat - ·)

def isDigit (c : Char) : Bool := (digitValue? c).isSome

/-- The number that a list of digits writes, the most significant digit first. -/
def numberOf (digits : List Char) : Nat :=
  digits.foldl (fun n c => 10 * n + (digitValue? c).getD 0) 0

@[simp] theorem numberOf_nil : numberOf [] = 0 := rfl

theorem numberOf_concat (digits : List Char) (c : Char) :
    numberOf (digits ++ [c]) = 10 * numberOf digits + (digitValue? c).getD 0 := by
  simp [numberOf]

/-- A number written with more digits than this is refused. -/
def digitLimit : Nat := 4300

/-- A numeral of more than `digitLimit` digits; leading zeros count. -/
structure Overlong where
  digits : Nat
  deriving DecidableEq, Repr

def Overlong.message (e : Overlong) : String :=
  "Exceeds the limit (" ++ toString digitLimit ++ " digits) for integer string conversion: "
    ++ "value has " ++ toString e.digits ++ " digits; "
    ++ "use sys.set_int_max_str_digits() to increase the limit"

/-- The integer that an optional minus sign and a list of digits write. -/
def integerOf (negative : Bool) (digits : List Char) : Except Overlong Int :=
  if digitLimit < digits.length then .error ⟨digits.length⟩
  else .ok (if negative then -(numberOf digits : Int) else numberOf digits)

end DesignDoc.Text
