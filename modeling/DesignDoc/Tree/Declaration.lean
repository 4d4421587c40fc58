import DesignDoc.Tree.Walk

/-! What a syntax tree says of itself: the name of a module or routine, and the shape of a
declaration. -/

namespace DesignDoc.Tree

open DesignDoc.Event DesignDoc.Json

/-! ### Identifiers -/

mutual
/-- The first identifier token below a tree. A token without a text ends the search among its
siblings. -/
def firstIdentifier? : Tree → Option String
  | .node _ children _ => firstIdentifierIn? children
  | _ => none
def firstIdentifierIn? : List Tree → Option String
  | [] => none
  | .token kind text _ :: ts =>
    if kind = "Identifier" then Text.nonempty? (cleanText text.toList) else firstIdentifierIn? ts
  | t :: ts => t.firstIdentifier? <|> firstIdentifierIn? ts
end

/-- The name in the header of a construct, else in its prototype, else its first identifier. -/
def identifier? (t : Tree) : Option String :=
  ((t.part "header").part "name").text? <|> ((t.part "prototype").part "name").text?
    <|> t.firstIdentifier?

/-! ### Declarations -/

/-- The default of a declarator: an assigned type, else an initial value. -/
def default (t : Tree) : Tree :=
  if (t.part "assignment").isAbsent then (t.part "initializer").part "expr"
  else (t.part "assignment").part "type"

/-- Only a tree with a name part declares something; separators do not. -/
def declarator? (t : Tree) : Option Declarator :=
  (t.part? "name").map fun name =>
    { name := name.text, dimensions := (t.part "dimensions").text?, default := t.default.text? }

/-- The direction and the type of a port header. A header without a direction, that of an
interface port, is a type as a whole. -/
def portHeader (header : Tree) : Option String × Option String :=
  if (header.part "direction").isAbsent then (none, header.text?)
  else
    ((header.part "direction").text?,
      (Tree.seq [header.part "netType", header.part "dataType"]).text?)

/-- The declarators that a node lists. -/
def declarators (t : Tree) : Except Question (List Declarator) :=
  match (t.part "declarators").members? with
  | some ts => .ok (ts.filterMap declarator?)
  | none => .error .declarators

/-- The parts that a declaration of a given kind must have, though they may be absent trees. -/
def requiredParts : String → List String
  | "ExplicitAnsiPort" => ["direction", "name"]
  | "FunctionPort" => ["dataType", "direction", "declarator"]
  | "ImplicitAnsiPort" => ["header", "declarator"]
  | "PortDeclaration" => ["header", "declarators"]
  | "TypeParameterDeclaration" => ["typeKeyword", "declarators"]
  | "NetDeclaration" => ["netType", "type", "declarators"]
  | _ => ["type", "declarators"]

/-- The declaration that a tree of a given kind makes if it has the parts it needs. -/
def declarationOf (kind : String) (t : Tree) : Except Question Declaration :=
  let one := (declarator? (t.part "declarator")).toList
  let header := portHeader (t.part "header")
  match kind with
  | "ExplicitAnsiPort" =>
    .ok { direction := (t.part "direction").text?,
          declarators := [{ name := (t.part "name").text }] }
  | "FunctionPort" =>
    .ok { type := (t.part "dataType").text?, direction := (t.part "direction").text?,
          declarators := one }
  | "ImplicitAnsiPort" => .ok { type := header.2, direction := header.1, declarators := one }
  | "PortDeclaration" => do
    return { type := header.2, direction := header.1, declarators := ← t.declarators }
  | "TypeParameterDeclaration" => do
    return { type := (t.part "typeKeyword").text?, declarators := ← t.declarators }
  | "NetDeclaration" => do
    return { type := (Tree.seq [t.part "netType", t.part "type"]).text?,
             declarators := ← t.declarators }
  | _ => do return { type := (t.part "type").text?, declarators := ← t.declarators }

/-- Only a node declares something, and only if nothing it needs is missing. -/
def declaration : Tree → Except Question Declaration
  | .node kind children parts =>
    if (requiredParts kind).all fun name => (parts.lookup name).isSome then
      declarationOf kind (.node kind children parts)
    else .error .declaration
  | _ => .error .declaration

/-- Names and declarations can be asked for only where there is a tree. -/
instance : Inspect Tree where
  text
    | none => .ok ""
    | some t => .ok t.text
  identifier
    | none => .error .identifier
    | some t => .ok (.ofText? t.identifier?)
  declaration _
    | none => .error .declaration
    | some t => t.declaration

end DesignDoc.Tree
