import DesignDoc.Event.Basic
import DesignDoc.Json.Display
import DesignDoc.Text.Blank

/-! Nodes of recorded events. A recorded node holds its text, its identifier and its declaration
as JSON values, just as they were recorded; they are turned into texts when they are asked for. -/

namespace DesignDoc.Json

mutual
/-- The text of a value in a document: null is empty, an array is the texts of its items side by
side, and everything else is its display without the blanks around it. -/
def Value.text : Value → String
  | .null => ""
  | .arr items => Text.joined (itemTexts items)
  | .str s => Text.trimmed s
  | v => Text.trimmed v.inspect
def itemTexts : List Value → List String
  | [] => []
  | v :: vs => v.text :: itemTexts vs
end

/-- An empty text is absent. -/
def Value.text? (v : Value) : Option String := Text.nonempty? v.text

end DesignDoc.Json

namespace DesignDoc.Recording

open DesignDoc.Json DesignDoc.Event

structure RawDeclarator where
  name : Value
  dimensions : Value := .null
  default : Value := .null
  deriving DecidableEq, Repr

structure RawDeclaration where
  type : Value := .null
  direction : Value := .null
  declarators : List RawDeclarator := []
  deriving DecidableEq, Repr

structure Node where
  text : Value := .str ""
  identifier : Value := .null
  declaration : Option RawDeclaration := none
  deriving DecidableEq, Repr

namespace Node

/-- The text of a node, if what is recorded for it is a text. -/
def text? (n : Node) : Option String :=
  match n.text with
  | .str s => some (Text.trimmed s)
  | _ => none

end Node

def RawDeclarator.resolve (d : RawDeclarator) : Declarator :=
  { name := d.name.text, dimensions := d.dimensions.text?, default := d.default.text? }

def RawDeclaration.resolve (d : RawDeclaration) : Declaration :=
  { type := d.type.text?, direction := d.direction.text?,
    declarators := d.declarators.map RawDeclarator.resolve }

/-- Where nothing is recorded, the text is empty, nothing is named and nothing declared. -/
instance : Inspect Node where
  text
    | none => .ok ""
    | some n => (n.text?.map .ok).getD (.error .text)
  identifier
    | none => .ok .null
    | some n => .ok n.identifier
  declaration _
    | none => .ok {}
    | some n => .ok ((n.declaration.map RawDeclaration.resolve).getD {})

/-! ### Displays -/

/-- A record with its fields by name. -/
def displayRecord (title : String) (fields : List (String × String)) : String :=
  title ++ "(" ++ ", ".intercalate (fields.map fun f => f.1 ++ "=" ++ f.2) ++ ")"

def RawDeclarator.inspect (d : RawDeclarator) : String :=
  displayRecord "Declarator" [("name", d.name.inspect), ("dimensions", d.dimensions.inspect),
    ("default", d.default.inspect)]

def RawDeclaration.inspect (d : RawDeclaration) : String :=
  displayRecord "Declaration" [("data_type", d.type.inspect), ("direction", d.direction.inspect),
    ("declarators", "[" ++ ", ".intercalate (d.declarators.map RawDeclarator.inspect) ++ "]")]

def Node.inspect (n : Node) : String :=
  displayRecord "TextNode" [("text", n.text.inspect), ("identifier", n.identifier.inspect),
    ("declaration", (n.declaration.map RawDeclaration.inspect).getD Value.null.inspect)]

/-! ### Handles -/

/-- What the text of a recording can be asked for: a value, a node, several of these, or an object
that has such members. -/
inductive Handle where
  | value (v : Value)
  | node (n : Node)
  | seq (members : List Handle)
  | object (members : List (String × Handle))
  deriving Repr, Inhabited

mutual
/-- A handle as it stands inside an object. -/
def Handle.inspect : Handle → String
  | .value v => v.inspect
  | .node n => n.inspect
  | .seq members => "[" ++ ", ".intercalate (inspectAll members) ++ "]"
  | .object members => "\x7b" ++ ", ".intercalate (inspectFields members) ++ "\x7d"
def inspectAll : List Handle → List String
  | [] => []
  | h :: hs => h.inspect :: inspectAll hs
def inspectFields : List (String × Handle) → List String
  | [] => []
  | (k, h) :: hs => (Text.quoted k ++ ": " ++ h.inspect) :: inspectFields hs
end

mutual
/-- The text of a handle: the members of a sequence stand side by side, and an object is displayed.
It is missing if a node that stands alone or in a sequence has no text. -/
def Handle.text? : Handle → Option String
  | .value v => some v.text
  | .node n => n.text?
  | .seq members => (memberTexts? members).map Text.joined
  | .object members => some (Text.trimmed (Handle.object members).inspect)
def memberTexts? : List Handle → Option (List String)
  | [] => some []
  | h :: hs => do
    let t ← h.text?
    let ts ← memberTexts? hs
    return t :: ts
end

/-- Only a node has an identifier. -/
def Handle.identifier : Handle → Value
  | .node n => n.identifier
  | _ => .null

/-- Only a node declares something. -/
def Handle.declaration : Handle → RawDeclaration
  | .node n => n.declaration.getD {}
  | _ => {}

end DesignDoc.Recording
