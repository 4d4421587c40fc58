import DesignDoc.Text.CodePoint

/-! The files of a directory, and what a path leads to in it. A path is followed component by
component: an empty one and a dot stay where they are, two dots go up, and every other one must be
the name of something that is there. -/

namespace DesignDoc.Generator

/-- The components of a path. -/
def components (path : String) : List String :=
  (path.toList.splitOnP (· == '/')).map String.ofList

/-- A component that leads nowhere. -/
def isIdle (component : String) : Bool := component == "" || component == "."

/-- The contents of files under the components of their names. The directories in it are those
that lead to a file. -/
structure Directory where
  files : List (List String × ByteArray) := []

/-- What a path leads to. -/
inductive Entry where
  | file (bytes : ByteArray)
  | directory
  /-- A file stands where the path needs a directory. -/
  | blocked
  | missing
  /-- No file can have such a name. -/
  | unnameable
  /-- The name cannot be spelled in bytes. -/
  | unspellable

namespace Directory

/-- The directory of files with names relative to it. -/
def ofNames (files : List (String × ByteArray)) : Directory :=
  ⟨files.map fun f => ((components f.1).filter (! isIdle ·), f.2)⟩

/-- Whether a file lies below a place. -/
def leads (d : Directory) (place : List String) : Bool :=
  d.files.any fun f => place.isPrefixOf f.1 && place.length < f.1.length

/-- Go up from a place. Above the directory nothing is known, which is no place. -/
def parent : Option (List String) → Option (List String)
  | none => none
  | some [] => none
  | some (c :: cs) => some (c :: cs).dropLast

/-- Follow components from a place. -/
def follow (d : Directory) (place : Option (List String)) : List String → Entry
  | [] => .directory
  | c :: cs =>
    if isIdle c then d.follow place cs
    else if c = ".." then d.follow (parent place) cs
    else
      match place with
      | none => .missing
      | some p =>
        if d.leads (p ++ [c]) then d.follow (some (p ++ [c])) cs
        else
          match d.files.lookup (p ++ [c]) with
          | none => .missing
          | some bytes => if cs.isEmpty then .file bytes else .blocked

/-- Whether a code point can stand in a path. Of the halves of surrogate pairs only those can that
stand for a byte above the ASCII range. -/
def isSpellable (n : Nat) : Bool := ! Text.isSurrogate n || (0xDC80 ≤ n && n ≤ 0xDCFF)

/-- What a path leads to. The empty path leads nowhere, a path from the root leaves the directory,
and no path has a null character in it. -/
def find (d : Directory) (path : String) : Entry :=
  if ! (Text.codePoints path.toList).all isSpellable then .unspellable
  else if path.toList.contains '\x00' then .unnameable
  else if path = "" then .missing
  else if path.toList.head? == some '/' then d.follow none (components path)
  else d.follow (some []) (components path)

end Directory

end DesignDoc.Generator
