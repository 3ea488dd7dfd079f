import Mathlib
import ElfCarve.FileSystem.Basic

/-!
# Growth of a file system

A file system grows when nothing in it goes away: each entry stays where it is and what it is, and
only the content of a file may become another.  The two ways in which entries change here, `add` and
`overwrite`, are growth.

* `Entry.SameKind` relates an entry to what it may become.
* `FileSystem.Grows` relates a file system to a later one.
* `FileSystem.Sets` says that exactly one location got a new entry.
-/

namespace ElfCarve

/-- Two entries of one kind: both are files, or they are equal. -/
inductive Entry.SameKind : Entry → Entry → Prop
  | file (old new : Bytes) : SameKind (.file old) (.file new)
  | same (entry : Entry) : SameKind entry entry

theorem Entry.SameKind.trans {a b c : Entry} (first : a.SameKind b) (second : b.SameKind c) :
    a.SameKind c := by
  cases first with
  | same => exact second
  | file old new =>
    cases second with
    | file _ newer => exact .file old newer
    | same => exact .file old new

theorem Entry.SameKind.eq_of_content?_eq_none {a b : Entry} (kind : a.SameKind b)
    (noFile : a.content? = none) : b = a := by
  cases kind with
  | file => cases noFile
  | same => rfl

theorem Entry.SameKind.noLink {a b : Entry} (kind : a.SameKind b)
    (noLink : ∀ target, a ≠ .link target) : ∀ target, b ≠ .link target := by
  cases kind with
  | file => exact fun _ => Entry.noConfusion
  | same => exact noLink

namespace FileSystem

variable {fs before between after : FileSystem} {loc : Location} {entry : Entry}

structure Grows (before after : FileSystem) : Prop where
  workingDirectory : after.workingDirectory = before.workingDirectory
  kept : ∀ {loc entry}, before.get? loc = some entry →
    ∃ later, after.get? loc = some later ∧ entry.SameKind later

namespace Grows

theorem refl (fs : FileSystem) : fs.Grows fs :=
  ⟨rfl, fun {_ entry} present => ⟨entry, present, .same entry⟩⟩

theorem trans (first : before.Grows between) (second : between.Grows after) :
    before.Grows after := by
  refine ⟨second.workingDirectory.trans first.workingDirectory, fun present => ?_⟩
  obtain ⟨middle, presentBetween, toMiddle⟩ := first.kept present
  obtain ⟨last, presentAfter, toLast⟩ := second.kept presentBetween
  exact ⟨last, presentAfter, toMiddle.trans toLast⟩

theorem get?_of_content?_eq_none (grows : before.Grows after)
    (present : before.get? loc = some entry) (noFile : entry.content? = none) :
    after.get? loc = some entry := by
  obtain ⟨later, presentAfter, kind⟩ := grows.kept present
  rw [presentAfter, kind.eq_of_content?_eq_none noFile]

theorem directory (grows : before.Grows after) (present : before.get? loc = some .directory) :
    after.get? loc = some .directory :=
  grows.get?_of_content?_eq_none present rfl

theorem link {target : Path} (grows : before.Grows after)
    (present : before.get? loc = some (.link target)) : after.get? loc = some (.link target) :=
  grows.get?_of_content?_eq_none present rfl

end Grows

/-! ## One new entry -/

structure Sets (before : FileSystem) (loc : Location) (entry : Entry) (after : FileSystem) :
    Prop where
  workingDirectory : after.workingDirectory = before.workingDirectory
  get? : ∀ other, after.get? other = if loc = other then some entry else before.get? other

namespace Sets

theorem here (sets : before.Sets loc entry after) : after.get? loc = some entry := by
  rw [sets.get?, if_pos rfl]

theorem elsewhere {other : Location} (sets : before.Sets loc entry after) (other_ne : loc ≠ other) :
    after.get? other = before.get? other := by
  rw [sets.get?, if_neg other_ne]

/-- What stood at the location must be of the kind of its new entry. -/
theorem grows (sets : before.Sets loc entry after)
    (kind : ∀ old, before.get? loc = some old → old.SameKind entry) : before.Grows after := by
  refine ⟨sets.workingDirectory, fun {other old} present => ?_⟩
  by_cases same : loc = other
  · subst same
    exact ⟨entry, sets.here, kind old present⟩
  -- Elsewhere the entry is not only of the same kind but the same.
  · exact ⟨old, (sets.elsewhere same).trans present, .same old⟩

theorem grows_of_free (sets : before.Sets loc entry after) (free : before.get? loc = none) :
    before.Grows after :=
  sets.grows fun old present => by simp [free] at present

theorem grows_of_file {old content : Bytes} (sets : before.Sets loc (.file content) after)
    (isFile : before.get? loc = some (.file old)) : before.Grows after := by
  refine sets.grows fun other present => ?_
  cases isFile.symm.trans present
  exact .file old content

theorem unique {other : FileSystem} (sets : before.Sets loc entry after)
    (alike : before.Sets loc entry other) : after = other := by
  refine FileSystem.ext ?_ fun place => ?_
  · rw [sets.workingDirectory, alike.workingDirectory]
  · rw [sets.get?, alike.get?]

theorem trans {newer : Entry} (first : before.Sets loc entry between)
    (second : between.Sets loc newer after) : before.Sets loc newer after := by
  refine ⟨second.workingDirectory.trans first.workingDirectory, fun other => ?_⟩
  rw [second.get?]
  split
  next => rfl
  next elsewhere => exact first.elsewhere elsewhere

end Sets

theorem sets_add {dir : Location} {name : Name} (isDirectory : fs.get? dir = some .directory)
    (free : fs.get? (name :: dir) = none) (entry : Entry) :
    fs.Sets (name :: dir) entry (fs.add dir name entry) :=
  ⟨workingDirectory_add fs dir name entry, get?_add isDirectory free entry⟩

theorem sets_overwrite {old : Bytes} (isFile : fs.get? loc = some (.file old)) (content : Bytes) :
    fs.Sets loc (.file content) (fs.overwrite loc content) :=
  ⟨workingDirectory_overwrite fs loc content, get?_overwrite isFile content⟩

end FileSystem

end ElfCarve
