import DesignDoc.Json.Token

/-! Reading JSON. The reader is a machine over lexemes whose state is the stack of arrays and
objects that are open and what may come next; reading is the fold of its step. -/

namespace DesignDoc.Json

open DesignDoc.Text

inductive ReadError where
  | malformed (p : Problem) (offset : Nat)
  | overlong (e : Overlong)
  deriving DecidableEq, Repr

namespace Reader

/-- An open array or object. What is read of it stands in reverse; of an object the key of the
member that is being read is known. -/
inductive Frame where
  | array (done : List Value)
  | object (done : List (String × Value)) (key : String)

/-- What may come next, inside the open frames, innermost first. -/
inductive Mode where
  | value (stack : List Frame)
  /-- A first element or the end of an array. -/
  | element (stack : List Frame)
  | key (first : Bool) (done : List (String × Value)) (stack : List Frame)
  | colon (done : List (String × Value)) (key : String) (stack : List Frame)
  /-- A value is complete. -/
  | after (v : Value) (stack : List Frame)

/-- Add a member; a key that is there already keeps its place and takes the new value. -/
def put (key : String) (v : Value) (done : List (String × Value)) : List (String × Value) :=
  if done.any (·.1 == key) then done.map fun m => if m.1 == key then (key, v) else m
  else (key, v) :: done

/-- A lexeme where a value may start. -/
def stepValue (stack : List Frame) (l : Lexeme) : Except ReadError Mode :=
  match l.token with
  | .openArray => .ok (.element stack)
  | .openObject => .ok (.key true [] stack)
  | .text s => .ok (.after (.str s) stack)
  | .scalar v => .ok (.after v stack)
  | .overlong e => .error (.overlong e)
  | .broken p offset => .error (.malformed p offset)
  | _ => .error (.malformed .value l.offset)

def step (m : Mode) (l : Lexeme) : Except ReadError Mode :=
  match m with
  | .value stack => stepValue stack l
  | .element stack =>
    match l.token with
    | .closeArray => .ok (.after (.arr []) stack)
    | _ => stepValue (.array [] :: stack) l
  | .key first done stack =>
    match l.token with
    | .text s => .ok (.colon done s stack)
    | .broken p offset => .error (.malformed p offset)
    | .closeObject =>
      if first then .ok (.after (.obj []) stack) else .error (.malformed .key l.offset)
    | _ => .error (.malformed .key l.offset)
  | .colon done key stack =>
    match l.token with
    | .colon => .ok (.value (.object done key :: stack))
    | _ => .error (.malformed .colon l.offset)
  | .after _ [] => .error (.malformed .extra l.offset)
  | .after v (.array done :: stack) =>
    match l.token with
    | .comma => .ok (.value (.array (v :: done) :: stack))
    | .closeArray => .ok (.after (.arr (v :: done).reverse) stack)
    | _ => .error (.malformed .comma l.offset)
  | .after v (.object done key :: stack) =>
    match l.token with
    | .comma => .ok (.key false (put key v done) stack)
    | .closeObject => .ok (.after (.obj (put key v done).reverse) stack)
    | _ => .error (.malformed .comma l.offset)

/-- The value that is read when the text ends at `offset`. -/
def finish (offset : Nat) : Mode → Except ReadError Value
  | .value _ | .element _ => .error (.malformed .value offset)
  | .key _ _ _ => .error (.malformed .key offset)
  | .colon _ _ _ => .error (.malformed .colon offset)
  | .after v [] => .ok v
  | .after _ (_ :: _) => .error (.malformed .comma offset)

def run (m : Mode) (ls : List Lexeme) : Except ReadError Mode := ls.foldlM step m

end Reader

/-- The value that a text writes. -/
def read (text : List Char) : Except ReadError Value :=
  if text.head? == some '\uFEFF' then .error (.malformed .byteOrderMark 0)
  else Reader.run (.value []) (lex 0 text) >>= Reader.finish text.length

/-- A place in a text, by code points. Lines and columns are counted from one. -/
structure Position where
  offset : Nat
  line : Nat
  column : Nat
  deriving DecidableEq, Repr

/-- The place of the character at `offset`. -/
def positionAt (text : List Char) (offset : Nat) : Position :=
  let before := codePoints (text.take offset)
  { offset := before.length
    line := 1 + before.count '\n'.toNat
    column := 1 + (before.reverse.takeWhile (· ≠ '\n'.toNat)).length }

/-- What is wrong, and where. -/
def Problem.messageAt (p : Problem) (place : Position) : String :=
  p.message ++ ": line " ++ toString place.line ++ " column " ++ toString place.column
    ++ " (char " ++ toString place.offset ++ ")"

end DesignDoc.Json
