import ElfCarve.FileSystem.Entry

/-!
# File systems

A file system is a tree of directories in which one is the working directory.  It is kept as a map
from locations to entries; that every entry lies in a directory is part of the type, so the map is
a tree.

Three operations change a tree, and each of them changes nothing where it would break it:
`add` puts an entry at a free name, `overwrite` gives a regular file a new content, and `prune`
removes an entry with all that lies below it.  What `get?` finds after each of them is stated
beside it.
-/

namespace ElfCarve

structure FileSystem where
  entries : Std.ExtTreeMap Location Entry
  workingDirectory : Location
  root_isDirectory : entries[([] : Location)]? = some .directory
  workingDirectory_isDirectory : entries[workingDirectory]? = some .directory
  parent_isDirectory : ∀ (name : Name) (dir : Location),
    entries[name :: dir]? ≠ none → entries[dir]? = some .directory

namespace FileSystem

def get? (fs : FileSystem) (loc : Location) : Option Entry :=
  fs.entries[loc]?

theorem ext {a b : FileSystem} (workingDirectory : a.workingDirectory = b.workingDirectory)
    (get? : ∀ loc, a.get? loc = b.get? loc) : a = b := by
  have entries : a.entries = b.entries := Std.ExtTreeMap.ext_getElem? get?
  cases a
  cases b
  cases entries
  cases workingDirectory
  rfl

theorem get?_root (fs : FileSystem) : fs.get? [] = some .directory :=
  fs.root_isDirectory

theorem get?_workingDirectory (fs : FileSystem) :
    fs.get? fs.workingDirectory = some .directory :=
  fs.workingDirectory_isDirectory

theorem get?_parent (fs : FileSystem) {name : Name} {dir : Location} {entry : Entry}
    (h : fs.get? (name :: dir) = some entry) : fs.get? dir = some .directory :=
  fs.parent_isDirectory name dir fun missing => by simp [get?, missing] at h

theorem getElem?_insert_entry (entries : Std.ExtTreeMap Location Entry) (loc other : Location)
    (entry : Entry) :
    (entries.insert loc entry)[other]? = if loc = other then some entry else entries[other]? := by
  simp [Std.ExtTreeMap.getElem?_insert]

/-! ## Adding an entry -/

/-- Puts an entry into a directory under a free name. -/
def add (fs : FileSystem) (dir : Location) (name : Name) (entry : Entry) : FileSystem :=
  if h : fs.get? dir = some .directory ∧ fs.get? (name :: dir) = none then
    { entries := fs.entries.insert (name :: dir) entry
      workingDirectory := fs.workingDirectory
      root_isDirectory := by
        simpa [getElem?_insert_entry] using fs.root_isDirectory
      workingDirectory_isDirectory := by
        have := fs.get?_workingDirectory
        simp only [getElem?_insert_entry]
        split
        next same => simp [same, this] at h
        next => exact this
      parent_isDirectory := by
        intro other above present
        simp only [getElem?_insert_entry] at present ⊢
        have above_isDirectory : fs.entries[above]? = some .directory := by
          split at present
          next same =>
            cases same
            exact h.1
          next => exact fs.parent_isDirectory other above present
        split
        next same =>
          cases same
          simp [get?, above_isDirectory] at h
        next => exact above_isDirectory }
  else fs

@[simp] theorem workingDirectory_add (fs : FileSystem) (dir : Location) (name : Name)
    (entry : Entry) : (fs.add dir name entry).workingDirectory = fs.workingDirectory := by
  unfold add
  split <;> rfl

theorem get?_add {fs : FileSystem} {dir : Location} {name : Name}
    (isDirectory : fs.get? dir = some .directory) (free : fs.get? (name :: dir) = none)
    (entry : Entry) (loc : Location) :
    (fs.add dir name entry).get? loc = if name :: dir = loc then some entry else fs.get? loc := by
  rw [add, dif_pos ⟨isDirectory, free⟩]
  exact getElem?_insert_entry _ _ _ _

/-! ## Replacing the content of a file -/

def overwrite (fs : FileSystem) (loc : Location) (content : Bytes) : FileSystem :=
  if h : (fs.get? loc).bind Entry.content? ≠ none then
    have keeps (other : Location) (isDirectory : fs.entries[other]? = some .directory) :
        (fs.entries.insert loc (.file content))[other]? = some .directory := by
      rw [getElem?_insert_entry]
      split
      next same =>
        cases same
        simp [get?, isDirectory, Entry.content?] at h
      next => exact isDirectory
    { entries := fs.entries.insert loc (.file content)
      workingDirectory := fs.workingDirectory
      root_isDirectory := keeps [] fs.root_isDirectory
      workingDirectory_isDirectory := keeps _ fs.workingDirectory_isDirectory
      parent_isDirectory := by
        intro name dir present
        apply keeps
        apply fs.parent_isDirectory name dir
        rw [getElem?_insert_entry] at present
        split at present
        next same =>
          cases same
          intro missing
          simp [get?, missing] at h
        next => exact present }
  else fs

@[simp] theorem workingDirectory_overwrite (fs : FileSystem) (loc : Location) (content : Bytes) :
    (fs.overwrite loc content).workingDirectory = fs.workingDirectory := by
  unfold overwrite
  split <;> rfl

theorem get?_overwrite {fs : FileSystem} {loc : Location} {old : Bytes}
    (isFile : fs.get? loc = some (.file old)) (content : Bytes) (other : Location) :
    (fs.overwrite loc content).get? other =
      if loc = other then some (.file content) else fs.get? other := by
  rw [overwrite, dif_pos (by simp [isFile, Entry.content?])]
  exact getElem?_insert_entry _ _ _ _

/-! ## Removing a subtree -/

theorem getElem?_filter_outside (entries : Std.ExtTreeMap Location Entry) (loc other : Location) :
    (entries.filter fun key _ => ¬ loc <:+ key)[other]? =
      if loc <:+ other then none else entries[other]? := by
  rw [Std.ExtTreeMap.getElem?_filter]
  simp only [Std.ExtTreeMap.getKey_eq]
  split
  next below => cases entries[other]? <;> simp [Option.pfilter, below]
  next outside => cases entries[other]? <;> simp [Option.pfilter, outside]

/-- Removes an entry with all that lies below it, unless the working directory is among them. -/
def prune (fs : FileSystem) (loc : Location) : FileSystem :=
  if h : loc <:+ fs.workingDirectory then fs
  else
    { entries := fs.entries.filter fun key _ => ¬ loc <:+ key
      workingDirectory := fs.workingDirectory
      root_isDirectory := by
        rw [getElem?_filter_outside, if_neg fun below => h (below.trans List.nil_suffix)]
        exact fs.root_isDirectory
      workingDirectory_isDirectory := by
        rw [getElem?_filter_outside, if_neg h]
        exact fs.workingDirectory_isDirectory
      parent_isDirectory := by
        intro name dir present
        rw [getElem?_filter_outside] at present ⊢
        split at present
        next => exact absurd rfl present
        next outside =>
          rw [if_neg fun below => outside (below.trans (List.suffix_cons name dir))]
          exact fs.parent_isDirectory name dir present }

theorem get?_prune {fs : FileSystem} {loc : Location} (h : ¬ loc <:+ fs.workingDirectory)
    (other : Location) :
    (fs.prune loc).get? other = if loc <:+ other then none else fs.get? other := by
  rw [prune, dif_neg h]
  exact getElem?_filter_outside _ _ _

end FileSystem

end ElfCarve
