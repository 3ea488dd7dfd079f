import ElfCarve.FileSystem.Fresh
import ElfCarve.Proofs.FileSystem.Growth

/-!
# Overlays

An overlay is what a change puts in place, told apart from the file system that it changes: some
locations get an entry, and all others are left as they are.  Where two changes are known as
overlays, they can be compared, put one over the other, and exchanged.
-/

namespace ElfCarve

/-- The entries that a change puts in place, by their locations. -/
abbrev Overlay := Location → Option Entry

namespace Overlay

def nothing : Overlay :=
  fun _ => none

def directories (locs : List Location) : Overlay :=
  fun loc => if loc ∈ locs then some .directory else none

def file (loc : Location) (content : Bytes) : Overlay :=
  fun other => if loc = other then some (.file content) else none

/-- What the first overlay puts in place, and elsewhere what the second one does. -/
def atop (upper lower : Overlay) : Overlay :=
  fun loc => (upper loc).or (lower loc)

variable {overlay upper lower : Overlay} {loc other : Location} {entry : Entry}

theorem directories_eq_some {locs : List Location}
    (put : directories locs loc = some entry) : loc ∈ locs ∧ entry = .directory := by
  unfold directories at put
  split at put
  next member =>
    cases put
    exact ⟨member, rfl⟩
  next => cases put

theorem file_eq_some {content : Bytes} (put : file loc content other = some entry) :
    other = loc ∧ entry = .file content := by
  unfold file at put
  split at put
  next same =>
    cases put
    exact ⟨same.symm, rfl⟩
  next => cases put

theorem atop_eq_some (put : upper.atop lower loc = some entry) :
    upper loc = some entry ∨ lower loc = some entry := by
  rw [atop, Option.or_eq_some_iff] at put
  exact put.imp_right And.right

theorem directories_append (first second : List Location) :
    directories (first ++ second) = (directories second).atop (directories first) := by
  funext loc
  simp only [directories, atop, List.mem_append]
  by_cases later : loc ∈ second
  · simp [later]
  · simp [later]

def Agrees (first second : Overlay) : Prop :=
  ∀ loc a b, first loc = some a → second loc = some b → a = b

theorem atop_comm (agree : upper.Agrees lower) : upper.atop lower = lower.atop upper := by
  funext loc
  simp only [atop]
  cases first : upper loc with
  | none => simp
  | some a =>
    cases second : lower loc with
    | none => rfl
    | some b =>
      have same := agree loc a b first second
      simp [same]

end Overlay

namespace FileSystem

open Overlay

variable {fs before between after : FileSystem} {overlay upper lower : Overlay} {loc : Location}

structure Overlaid (before : FileSystem) (overlay : Overlay) (after : FileSystem) : Prop where
  workingDirectory : after.workingDirectory = before.workingDirectory
  get? : ∀ loc, after.get? loc = (overlay loc).or (before.get? loc)

namespace Overlaid

theorem refl (fs : FileSystem) : fs.Overlaid nothing fs :=
  ⟨rfl, fun _ => rfl⟩

theorem trans (first : before.Overlaid lower between) (second : between.Overlaid upper after) :
    before.Overlaid (upper.atop lower) after := by
  refine ⟨second.workingDirectory.trans first.workingDirectory, fun loc => ?_⟩
  rw [second.get?, first.get?, atop, Option.or_assoc]

theorem put {entry : Entry} (laid : before.Overlaid overlay after)
    (here : overlay loc = some entry) : after.get? loc = some entry := by
  rw [laid.get?, here, Option.some_or]

theorem elsewhere (laid : before.Overlaid overlay after) (free : overlay loc = none) :
    after.get? loc = before.get? loc := by
  rw [laid.get?, free, Option.none_or]

theorem unique {other : FileSystem} (laid : before.Overlaid overlay after)
    (alike : before.Overlaid overlay other) : after = other := by
  refine FileSystem.ext ?_ fun loc => ?_
  · rw [laid.workingDirectory, alike.workingDirectory]
  · rw [laid.get?, alike.get?]

theorem exchange {a b : Overlay} {withA withB withBoth withBothToo : FileSystem}
    (firstA : before.Overlaid a withA) (thenB : withA.Overlaid b withBoth)
    (firstB : before.Overlaid b withB) (thenA : withB.Overlaid a withBothToo)
    (agree : a.Agrees b) : withBoth = withBothToo := by
  have both := firstA.trans thenB
  have bothToo := firstB.trans thenA
  rw [atop_comm agree] at bothToo
  exact both.unique bothToo

theorem of_directories {locs : List Location}
    (stand : ∀ loc ∈ locs, fs.get? loc = some .directory) :
    fs.Overlaid (directories locs) fs := by
  refine ⟨rfl, fun loc => ?_⟩
  by_cases member : loc ∈ locs
  · simp [directories, member, stand loc member]
  · simp [directories, member]

end Overlaid

theorem Sets.overlaid_directory (sets : before.Sets loc .directory after) :
    before.Overlaid (directories [loc]) after := by
  refine ⟨sets.workingDirectory, fun other => ?_⟩
  rw [sets.get?]
  by_cases same : loc = other
  · simp [directories, same]
  · simp [directories, same, Ne.symm same]

theorem Sets.overlaid_file {content : Bytes} (sets : before.Sets loc (.file content) after) :
    before.Overlaid (file loc content) after := by
  refine ⟨sets.workingDirectory, fun other => ?_⟩
  rw [sets.get?, file]
  split <;> rfl

/-! ## File systems without links -/

def LinkFree (fs : FileSystem) : Prop :=
  ∀ loc target, fs.get? loc ≠ some (.link target)

theorem LinkFree.overlaid (linkFree : before.LinkFree) (laid : before.Overlaid overlay after)
    (noLink : ∀ loc target, overlay loc ≠ some (.link target)) : after.LinkFree := by
  intro loc target present
  rw [laid.get?, Option.or_eq_some_iff] at present
  rcases present with put | ⟨-, standing⟩
  · exact noLink loc target put
  · exact linkFree loc target standing

theorem LinkFree.overlaid_directories {locs : List Location} (linkFree : before.LinkFree)
    (laid : before.Overlaid (directories locs) after) : after.LinkFree :=
  linkFree.overlaid laid fun _ _ put => nomatch (directories_eq_some put).2

theorem LinkFree.add {dir : Location} {name : Name} {entry : Entry} (linkFree : fs.LinkFree)
    (noLink : ∀ target, entry ≠ .link target) : (fs.add dir name entry).LinkFree := by
  intro loc target present
  by_cases room : fs.get? dir = some .directory ∧ fs.get? (name :: dir) = none
  · rw [get?_add room.1 room.2] at present
    split at present
    next => exact noLink target (Option.some.inj present)
    next => exact linkFree loc target present
  · rw [FileSystem.add, dif_neg room] at present
    exact linkFree loc target present

theorem linkFree_empty : empty.LinkFree := by
  intro loc target present
  rw [FileSystem.get?, empty, getElem?_insert_entry] at present
  split at present
  next => cases present
  next => simp at present

theorem LinkFree.enter (linkFree : fs.LinkFree) : (fs.enter loc).LinkFree := by
  intro other target
  rw [get?_enter]
  exact linkFree other target

theorem linkFree_fresh : fresh.LinkFree := by
  have withDevices : (((empty.add [] devices .directory).add [devices] sink (.device .sink)).add
      [devices] full (.device .full)).LinkFree :=
    ((linkFree_empty.add (by simp)).add (by simp)).add (by simp)
  exact ((withDevices.add (by simp)).add (by simp)).enter

end FileSystem

end ElfCarve
