import DesignDoc.Json.Value
import DesignDoc.Decimal.Shortest
import DesignDoc.Text.Quoted

/-! The text of a value in messages and in documents. A string stands for itself; inside an array
or an object it is quoted. -/

namespace DesignDoc.Json

open DesignDoc.Decimal

mutual
/-- A value as it stands inside another one. -/
def Value.inspect : Value → String
  | .null => "None"
  | .bool b => if b then "True" else "False"
  | .int n => toString n
  | .real x => Layout.plain.render x
  | .str s => Text.quoted s
  | .arr items => "[" ++ ", ".intercalate (inspectItems items) ++ "]"
  | .obj members => "\x7b" ++ ", ".intercalate (inspectMembers members) ++ "\x7d"
def inspectItems : List Value → List String
  | [] => []
  | v :: vs => v.inspect :: inspectItems vs
def inspectMembers : List (String × Value) → List String
  | [] => []
  | (k, v) :: ms => (Text.quoted k ++ ": " ++ v.inspect) :: inspectMembers ms
end

/-- A value on its own. -/
def Value.display : Value → String
  | .str s => s
  | v => v.inspect

@[simp] theorem Value.display_str (s : String) : (Value.str s).display = s := rfl

end DesignDoc.Json
