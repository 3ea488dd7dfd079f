import ElfCarve.Proofs.Carving.Delivery
import ElfCarve.Proofs.FileSystem.Parent

/-!
# Writing an output and reading it

Reading walks a path through its links, while writing first makes the directory that the text of the
path tells and only then walks.  The two keep to one file all the same, so they obey the laws of a
store, and the directory that is made is always the one in which the file is then written.
-/

namespace ElfCarve

open FileSystem

variable {fs between after : FileSystem} {path : Path} {dir : Location} {name : Name} {data : Bytes}

/-! ## The directory of a path -/

theorem ensureParent_of_directoryOf? (leads : fs.directoryOf? path = some dir)
    (isDirectory : fs.get? dir = some .directory) :
    (ensureParent path : StateM FileSystem _) fs = (.ok (), fs) := by
  cases lies : path.parent? with
  | none => exact run_ensureParent_of_none lies
  | some parent =>
    by_cases empty : parent.bytes = []
    · exact run_ensureParent_of_empty lies empty
    · rw [directoryOf?_of_filled lies empty] at leads
      apply ensureParent_of_isDirectory lies empty
      exact isDirectory_iff.mpr (entryAt?_eq_some_iff.mpr ⟨dir, leads, isDirectory⟩)

theorem exists_directoryOf?_of_ensureParent (ends : path.segments.getLast? = some name.bytes)
    (ensured : (ensureParent path : StateM FileSystem _) fs = (.ok (), between)) :
    ∃ dir, between.directoryOf? path = some dir ∧ between.get? dir = some .directory := by
  obtain ⟨front, segments⟩ := List.getLast?_eq_some_iff.mp ends
  cases Path.divides segments name.isOrdinary.not_isIdle with
  | alone _ lies =>
    exact ⟨_, directoryOf?_of_empty lies rfl, between.get?_workingDirectory⟩
  | within lies filled =>
    have stands := isDirectory_of_ensureParent lies filled ensured
    obtain ⟨dir, leads, isDirectory⟩ := entryAt?_eq_some_iff.mp (isDirectory_iff.mp stands)
    exact ⟨dir, (directoryOf?_of_filled lies filled).trans leads, isDirectory⟩

/-! ## The laws of a store -/

theorem run_readInput_of_contents? (present : fs.contents? path = some data) :
    (readInput path : StateM FileSystem _) fs = (([.read data.length path], .ok data), fs) := by
  rw [run_readInput, present]

theorem contents?_of_readInput
    (read : ((readInput path : StateM FileSystem _) fs).1.2 = .ok data) :
    fs.contents? path = some data := by
  rw [run_readInput] at read
  cases present : fs.contents? path with
  | none =>
    rw [present] at read
    cases read
  | some content =>
    rw [present] at read
    cases read
    rfl

theorem Delivery.of_ok
    (succeeded : ((writeOutput path data : StateM FileSystem _) fs).1 = .ok ()) :
    Delivery fs path data (.ok ()) ((writeOutput path data : StateM FileSystem _) fs).2 := by
  have ended := delivery fs path data
  rw [succeeded] at ended
  exact ended

theorem Delivery.run_writeOutput (delivered : Delivery fs path data (.ok ()) after) (more : Bytes) :
    (writeOutput path more : StateM FileSystem _) after =
      (writeOutput path more : StateM FileSystem _) fs := by
  cases delivered with
  | @written between _ ensured written =>
    have ensuredAgain := ensureParent_again ensured (grows_of_write written)
    rcases exists_sets_of_write written with rfl | ⟨loc, -, stores⟩
    · rw [run_writeOutput_of_ok ensured, run_writeOutput_of_ok ensuredAgain]
    · -- The path leads to a file, so that nothing can be refused.
      obtain ⟨stored, direct, -⟩ := stores more
      have again : after.write path more = .ok stored := (write_write written more).trans direct
      rw [run_writeOutput_of_ok ensured, run_writeOutput_of_ok ensuredAgain, direct, again]

/-- What was written is what is read.  What is written after it is as if it were the first.  And
what was read can be written again, which changes nothing. -/
theorem writeOutput_obeys_laws (fs : FileSystem) (path : Path) :
    (∀ data,
      let after := ((writeOutput path data : StateM FileSystem _) fs).2
      ((writeOutput path data : StateM FileSystem _) fs).1 = .ok () →
      (∀ device, after.entryAt? path ≠ some (.device device)) →
      (readInput path : StateM FileSystem _) after =
        (([.read data.length path], .ok data), after)) ∧
    (∀ data more, ((writeOutput path data : StateM FileSystem _) fs).1 = .ok () →
      (writeOutput path more : StateM FileSystem _)
          ((writeOutput path data : StateM FileSystem _) fs).2 =
        (writeOutput path more : StateM FileSystem _) fs) ∧
    (∀ data, ((readInput path : StateM FileSystem _) fs).1.2 = .ok data →
      (writeOutput path data : StateM FileSystem _) fs = (.ok (), fs)) := by
  refine ⟨?_, ?_, ?_⟩
  · intro data after succeeded noDevice
    have stored := (Delivery.of_ok succeeded).entryAt?
    refine run_readInput_of_contents? (contents?_eq_some_iff.mpr (stored.resolve_left ?_))
    exact fun ⟨device, isDevice⟩ => noDevice device isDevice
  · intro data more succeeded
    exact (Delivery.of_ok succeeded).run_writeOutput more
  · intro data read
    have present := contents?_of_readInput read
    obtain ⟨loc, leads, isFile⟩ := entryAt?_eq_some_iff.mp (contents?_eq_some_iff.mp present)
    -- The directory of a file to which a path leads stands, so it is not made.
    obtain ⟨dir, liesIn, isDirectory⟩ := directoryOf?_of_target? leads (by simp [isFile])
    have ensured := ensureParent_of_directoryOf? liesIn isDirectory
    rw [run_writeOutput_of_ok ensured, write_same present]

/-! ## Where a file is created -/

/-- The entry that has a path for its own; a link at the end is not followed. -/
def FileSystem.entryOf? (fs : FileSystem) (path : Path) : Option Entry :=
  match fs.resolve .bind path with
  | .ok (.found loc) => fs.get? loc
  | _ => none

section Ends

variable (walkable : Walkable path) (ends : path.segments.getLast? = some name.bytes)
  (leads : fs.directoryOf? path = some dir) (isDirectory : fs.get? dir = some .directory)

include walkable ends leads isDirectory

theorem entryOf?_of_directoryOf? : fs.entryOf? path = fs.get? (name :: dir) := by
  cases present : fs.get? (name :: dir) with
  | none =>
    have free : fs.resolve .bind path = .ok (.free dir name) :=
      resolve_of_directoryOf? walkable ends leads isDirectory fun _ =>
        .free isDirectory (fun refuses => refuses.2.2 rfl) present rfl
    rw [entryOf?, free]
  | some entry =>
    have taken : fs.resolve .bind path = .ok (.found (name :: dir)) :=
      resolve_of_directoryOf? walkable ends leads isDirectory fun _ =>
        .taken isDirectory ⟨rfl, rfl⟩ present
    rw [entryOf?, taken]
    exact present

theorem write_of_directoryOf?
    (clear : fs.get? (name :: dir) = none ∨ ∃ old, fs.get? (name :: dir) = some (.file old))
    (data : Bytes) :
    ∃ after, fs.write path data = .ok after ∧ fs.Sets (name :: dir) (.file data) after := by
  rcases clear with vacant | ⟨old, isFile⟩
  · have free : fs.resolve .create path = .ok (.free dir name) :=
      resolve_of_directoryOf? walkable ends leads isDirectory fun _ =>
        .free isDirectory (fun refuses => refuses.2.2 rfl) vacant rfl
    refine ⟨fs.add dir name (.file data), ?_, sets_add isDirectory vacant (.file data)⟩
    rw [write, free]
  · have found : fs.resolve .create path = .ok (.found (name :: dir)) :=
      resolve_of_directoryOf? walkable ends leads isDirectory fun _ =>
        .enter isDirectory (fun refuses => refuses.2.2 rfl) Intent.not_takes_create isFile
          (fun _ => Entry.noConfusion) .arrive
    refine ⟨fs.overwrite (name :: dir) data, ?_, sets_overwrite isFile data⟩
    rw [write, found]
    simp only [isFile]

end Ends

theorem walkable_of_getLast? (noZero : 0 ∉ path.bytes) (short : path.bytes.length < pathLimit)
    (ends : path.segments.getLast? = some name.bytes) : Walkable path := by
  refine ⟨noZero, fun empty => name.valid.1 ?_, short⟩
  rw [Path.segments, empty, List.splitOn_nil] at ends
  simpa using ends.symm

/-- Once the directory of a path that ends in a name has been made, any content can be written under
the path, unless it is taken by something else than a file; and that very directory is where the
file then stands. -/
theorem writeOutput_of_ensureParent (noZero : 0 ∉ path.bytes)
    (short : path.bytes.length < pathLimit) (ends : path.segments.getLast? = some name.bytes)
    (ensured : ((ensureParent path : StateM FileSystem _) fs).1 = .ok ())
    (unobstructed :
      ((ensureParent path : StateM FileSystem _) fs).2.entryOf? path = none ∨
        ∃ old, ((ensureParent path : StateM FileSystem _) fs).2.entryOf? path = some (.file old)) :
    ∃ dir, ((ensureParent path : StateM FileSystem _) fs).2.directoryOf? path = some dir ∧
      ∀ data, ((writeOutput path data : StateM FileSystem _) fs).1 = .ok () ∧
        ((writeOutput path data : StateM FileSystem _) fs).2.get? (name :: dir) =
          some (.file data) := by
  generalize made : (ensureParent path : StateM FileSystem _) fs = ended at ensured unobstructed ⊢
  obtain ⟨result, between⟩ := ended
  cases ensured
  have walkable := walkable_of_getLast? noZero short ends
  obtain ⟨dir, leads, isDirectory⟩ := exists_directoryOf?_of_ensureParent ends made
  rw [entryOf?_of_directoryOf? walkable ends leads isDirectory] at unobstructed
  refine ⟨dir, leads, fun data => ?_⟩
  obtain ⟨after, written, sets⟩ :=
    write_of_directoryOf? walkable ends leads isDirectory unobstructed data
  rw [run_writeOutput_of_ok made, written]
  exact ⟨rfl, sets.here⟩

/-- The parent of the path leads back to the working directory through a directory that is made for
it, and the file that stands there takes the content. -/
theorem writeOutput_of_ensureParent_through_new_directory :
    let path : Path := .ofText "new/./..//a"
    let a : Name := ⟨Utf8.encode "a", valid_a⟩
    linkedSample.isDirectory (.ofText "new") = false ∧
      ((ensureParent path : StateM FileSystem _) linkedSample).1 = .ok () ∧
      ∀ data, ((writeOutput path data : StateM FileSystem _) linkedSample).1 = .ok () ∧
        ((writeOutput path data : StateM FileSystem _) linkedSample).2.get?
          [a, session, temporary] = some (.file data) := by
  intro path a
  have ensured : ((ensureParent path : StateM FileSystem _) linkedSample).1 = .ok () := by cbv
  have ends : path.segments.getLast? = some a.bytes := by decide +kernel
  have isFile : ((ensureParent path : StateM FileSystem _) linkedSample).2.entryOf? path =
      some (.file (0 :: magic)) := by decide +kernel
  obtain ⟨dir, leads, written⟩ := writeOutput_of_ensureParent (by decide +kernel)
    (by decide +kernel) ends ensured (.inr ⟨_, isFile⟩)
  have isWorking : ((ensureParent path : StateM FileSystem _) linkedSample).2.directoryOf? path =
      some [session, temporary] := by decide +kernel
  cases leads.symm.trans isWorking
  exact ⟨by decide +kernel, ensured, written⟩

end ElfCarve
