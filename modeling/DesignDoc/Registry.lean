import DesignDoc.Text.CodePoint

/-! Registries: things under keys. A key is given once; asking for a key that is not there names
all that are. -/

namespace DesignDoc

structure Registry (α : Type) where
  /-- What messages call the registry. -/
  name : String := "registry"
  /-- The entries in the order of their registration. -/
  entries : List (String × α) := []
  deriving DecidableEq, Repr

namespace Registry

variable {α : Type}

inductive Fault where
  /-- The key has an owner already. -/
  | taken (registry key owner : String)
  | unknown (registry key : String) (available : List String)
  deriving DecidableEq, Repr

def Fault.message : Fault → String
  | taken registry key owner =>
    registry ++ ": key '" ++ key ++ "' already registered to " ++ owner
  | unknown registry key available =>
    registry ++ ": unknown key '" ++ key ++ "'. Available: " ++ ", ".intercalate available

def keys (r : Registry α) : List String := r.entries.map (·.1)

def size (r : Registry α) : Nat := r.entries.length

def contains (r : Registry α) (key : String) : Bool := r.keys.contains key

def get? (r : Registry α) (key : String) : Option α := r.entries.lookup key

/-- What is registered under a key; a fault lists the keys in order. -/
def get (r : Registry α) (key : String) : Except Fault α :=
  match r.get? key with
  | some a => .ok a
  | none => .error (.unknown r.name key (r.keys.mergeSort Text.inOrder))

/-- Register under a new key; a fault calls the owner of the key by its label. -/
def register (label : α → String) (r : Registry α) (key : String) (a : α) :
    Except Fault (Registry α) :=
  match r.get? key with
  | some owner => .error (.taken r.name key (label owner))
  | none => .ok { r with entries := r.entries ++ [(key, a)] }

end Registry

end DesignDoc
