import DesignDoc.Json.Value
import DesignDoc.Decimal.Shortest
import DesignDoc.Text.Quoted

/-! Writing JSON, on one line and without blanks. -/

namespace DesignDoc.Json

open DesignDoc.Decimal

/-- A code point of a string: the quote, the backslash, the controls and halves of surrogate pairs
are escaped. -/
def writePoint (n : Nat) : List Char :=
  if n = '"'.toNat || n = '\\'.toNat then ['\\', Char.ofNat n]
  else if n < 0x20 || Text.isSurrogate n then '\\' :: 'u' :: Text.Quoted.hex 4 n
  else [Char.ofNat n]

def writeText (s : String) : String :=
  String.ofList ('"' :: (Text.codePoints s.toList).flatMap writePoint ++ ['"'])

/-- Finite numbers have the layout of plain text; the others are written as words. -/
def writeReal (x : Binary64) : String :=
  Layout.render { Layout.plain with nan := "NaN", infinity := "Infinity" } x

mutual
def Value.write : Value → String
  | .null => "null"
  | .bool b => if b then "true" else "false"
  | .int n => toString n
  | .real x => writeReal x
  | .str s => writeText s
  | .arr items => "[" ++ ",".intercalate (writeItems items) ++ "]"
  | .obj members => "\x7b" ++ ",".intercalate (writeMembers members) ++ "\x7d"
def writeItems : List Value → List String
  | [] => []
  | v :: vs => v.write :: writeItems vs
def writeMembers : List (String × Value) → List String
  | [] => []
  | (k, v) :: ms => (writeText k ++ ":" ++ v.write) :: writeMembers ms
end

end DesignDoc.Json
