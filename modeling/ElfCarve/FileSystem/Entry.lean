import Std.Data.ExtTreeMap
import ElfCarve.Path

/-!
# Names, locations and entries

* `Name` is a name that a directory can hold.
* `Location` is a place in the tree of directories: the names on the way to it from the root, the
  innermost first.  The place above `name :: dir` is `dir`.
* `Entry` is what stands at a location.
-/

namespace ElfCarve

/-- Whether bytes can be the name of an entry.  The empty string and one or two dots mean something
else in a path, slashes separate names, and no name is longer than 255 bytes. -/
def Name.Valid (bytes : Bytes) : Prop :=
  bytes ≠ [] ∧ bytes ≠ [Bytes.dot] ∧ bytes ≠ [Bytes.dot, Bytes.dot] ∧ Bytes.slash ∉ bytes ∧
    0 ∉ bytes ∧ bytes.length ≤ 255

instance (bytes : Bytes) : Decidable (Name.Valid bytes) :=
  inferInstanceAs (Decidable (_ ∧ _))

structure Name where
  bytes : Bytes
  valid : Name.Valid bytes
  deriving DecidableEq

namespace Name

theorem eq_of_bytes {a b : Name} (h : a.bytes = b.bytes) : a = b := by
  cases a
  cases b
  cases h
  rfl

instance : Ord Name :=
  ⟨compareOn Name.bytes⟩

instance : Std.TransOrd Name :=
  inferInstanceAs (Std.TransCmp (compareOn Name.bytes))

theorem bytes_eq_of_compare {a b : Bytes} (h : compare a b = .eq) : a = b :=
  Std.LawfulEqOrd.eq_of_compare h

instance : Std.LawfulEqOrd Name where
  eq_of_compare h := eq_of_bytes (bytes_eq_of_compare h)

end Name

/-- A place in the tree of directories, as the names from the root to it, the innermost first. -/
abbrev Location := List Name

/-- Something that can be written to and holds nothing. -/
inductive Device where
  | sink
  | full
  deriving DecidableEq, Repr

inductive Entry where
  | directory
  | file (content : Bytes)
  /-- A symbolic link, which stands for the path that it holds. -/
  | link (target : Path)
  | device (device : Device)
  deriving DecidableEq, Repr

def Entry.content? : Entry → Option Bytes
  | .file content => some content
  | _ => none

end ElfCarve
