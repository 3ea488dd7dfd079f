import ElfCarve.FileSystem.State
import ElfCarve.Proofs.FileSystem.Access

/-!
# Making directories

Making a directory together with those above it adds directories and does nothing else, whatever
comes of it.  Each new directory stands where one of the paths leads.

* `AddsDirectories` is the relation of a file system to a later one that this is about.
* `run_makeFirst_of_empty`, `run_makeFirst_of_noEntry` and `run_makeFirst_of_ne_noEntry` are one
  step of the recursion.
* `makeFirst_adds` is the whole of it.
* `isDirectory_of_makeFirst` says that the directory stands after a success, and
  `makeFirst_of_isDirectory` that nothing is done where it stands already.
-/

namespace ElfCarve.FileSystem

variable {fs before between after : FileSystem} {paths more : List Path} {p : Path}

/-- Only directories are added, and each of them is where a path of a list leads in the end. -/
structure AddsDirectories (before : FileSystem) (paths : List Path) (after : FileSystem) :
    Prop where
  workingDirectory : after.workingDirectory = before.workingDirectory
  kept : ∀ {loc entry}, before.get? loc = some entry → after.get? loc = some entry
  added : ∀ {loc entry}, before.get? loc = none → after.get? loc = some entry →
    entry = .directory ∧ ∃ p ∈ paths, p.bytes ≠ [] ∧ after.target? p = some loc

namespace AddsDirectories

theorem grows (adds : before.AddsDirectories paths after) : before.Grows after :=
  ⟨adds.workingDirectory, fun {_ entry} present => ⟨entry, adds.kept present, .same entry⟩⟩

theorem refl (fs : FileSystem) (paths : List Path) : fs.AddsDirectories paths fs :=
  ⟨rfl, id, fun free present => by simp [free] at present⟩

theorem trans (first : before.AddsDirectories paths between)
    (second : between.AddsDirectories paths after) : before.AddsDirectories paths after := by
  refine ⟨second.workingDirectory.trans first.workingDirectory,
    fun present => second.kept (first.kept present), fun {loc entry} free present => ?_⟩
  -- What is new in the end was added either by the second change or by the first.
  cases middle : between.get? loc with
  | none => exact second.added middle present
  | some standing =>
    cases (second.kept middle).symm.trans present
    obtain ⟨isDirectory, p, member, filled, leads⟩ := first.added free middle
    exact ⟨isDirectory, p, member, filled, target?_of_grows second.grows leads⟩

theorem weaken (adds : before.AddsDirectories paths after) (subset : paths ⊆ more) :
    before.AddsDirectories more after := by
  refine ⟨adds.workingDirectory, adds.kept, fun free present => ?_⟩
  obtain ⟨isDirectory, p, member, rest⟩ := adds.added free present
  exact ⟨isDirectory, p, subset member, rest⟩

end AddsDirectories

theorem makeDirectory_adds (made : before.makeDirectory p = .ok after) (filled : p.bytes ≠ []) :
    before.AddsDirectories [p] after := by
  obtain ⟨new, vacant, sets, leads⟩ := makeDirectory_eq_ok made
  have elsewhere {loc : Location} {entry : Entry} (present : before.get? loc = some entry) :
      new ≠ loc := by
    rintro rfl
    simp [vacant] at present
  refine ⟨sets.workingDirectory, fun present => ?_, fun {loc entry} free present => ?_⟩
  · rwa [sets.elsewhere (elsewhere present)]
  · by_cases same : new = loc
    · subst same
      cases sets.here.symm.trans present
      exact ⟨rfl, p, List.mem_singleton_self p, filled, leads⟩
    · simp [sets.elsewhere same, free] at present

/-! ## The recursion over the paths above -/

theorem run_bind {α β : Type} (fs : FileSystem) (first : StateM FileSystem α)
    (next : α → StateM FileSystem β) :
    (first >>= next) fs = next (first fs).1 (first fs).2 :=
  rfl

def secureDirectory (fs : FileSystem) (p : Path) : Except Cause Unit × FileSystem :=
  match fs.makeDirectory p with
  | .ok made => (.ok (), made)
  | .error cause => (if fs.isDirectory p then .ok () else .error cause, fs)

theorem run_orStanding_error (fs : FileSystem) (p : Path) (cause : Cause) :
    (orStanding p (.error cause) : StateM FileSystem _) fs =
      (if fs.isDirectory p then .ok () else .error cause, fs) := by
  rw [orStanding, run_bind, run_isDirectory]
  split <;> rfl

theorem run_secureDirectory (fs : FileSystem) (p : Path) :
    (MonadFiles.makeDirectory p >>= orStanding p : StateM FileSystem _) fs =
      fs.secureDirectory p := by
  rw [run_bind, run_makeDirectory, attempt, secureDirectory]
  cases fs.makeDirectory p with
  | ok made => rfl
  | error cause => exact run_orStanding_error fs p cause

theorem run_makeFirst_of_empty {above : List Path} (empty : p.bytes = []) :
    (makeFirst (p :: above) : StateM FileSystem _) fs = (.ok (), fs) := by
  rw [makeFirst, if_pos empty]
  rfl

theorem run_makeFirst_of_noEntry {above : List Path} (filled : p.bytes ≠ [])
    (noPlace : fs.makeDirectory p = .error (.system .noEntry)) :
    (makeFirst (p :: above) : StateM FileSystem _) fs =
      match (makeFirst above : StateM FileSystem _) fs with
      | (.error cause, between) => (.error cause, between)
      | (.ok (), between) => between.secureDirectory p := by
  rw [makeFirst, if_neg filled, run_bind, run_makeDirectory, attempt, noPlace]
  refine (run_bind fs (makeFirst above) _).trans ?_
  cases (makeFirst above : StateM FileSystem _) fs with
  | mk result between =>
    cases result with
    | error cause => rfl
    | ok => exact run_secureDirectory between p

theorem run_makeFirst_of_ne_noEntry {above : List Path} (filled : p.bytes ≠ [])
    (place : fs.makeDirectory p ≠ .error (.system .noEntry)) :
    (makeFirst (p :: above) : StateM FileSystem _) fs = fs.secureDirectory p := by
  rw [makeFirst, if_neg filled, run_bind, run_makeDirectory, attempt, secureDirectory]
  cases made : fs.makeDirectory p with
  | ok => rfl
  | error cause =>
    refine Eq.trans ?_ (run_orStanding_error fs p cause)
    dsimp only
    generalize failed : (Except.error cause : Except Cause Unit) = result
    split
    next =>
      cases failed
      exact absurd made place
    next => rfl

theorem secureDirectory_adds (fs : FileSystem) (filled : p.bytes ≠ []) :
    fs.AddsDirectories [p] (fs.secureDirectory p).2 := by
  rw [secureDirectory]
  split
  next made => exact makeDirectory_adds made filled
  next => exact .refl fs [p]

theorem makeFirst_adds (fs : FileSystem) (paths : List Path) :
    fs.AddsDirectories paths ((makeFirst paths : StateM FileSystem _) fs).2 := by
  induction paths generalizing fs with
  | nil => exact .refl fs []
  | cons p above ih =>
    have secured (between : FileSystem) (filled : p.bytes ≠ []) :
        between.AddsDirectories (p :: above) (between.secureDirectory p).2 :=
      (secureDirectory_adds between filled).weaken (by simp)
    by_cases empty : p.bytes = []
    · rw [run_makeFirst_of_empty empty]
      exact .refl fs _
    by_cases noPlace : fs.makeDirectory p = .error (.system .noEntry)
    · -- What those above it added stays, also if one of them fails or the path itself does.
      have first := (ih fs).weaken (List.subset_cons_self p above)
      rw [run_makeFirst_of_noEntry empty noPlace]
      split
      next run =>
        rw [run] at first
        exact first
      next between run =>
        rw [run] at first
        exact first.trans (secured between empty)
    · rw [run_makeFirst_of_ne_noEntry empty noPlace]
      exact secured fs empty

/-! ## Directories that stand -/

theorem isDirectory_of_secureDirectory (secured : before.secureDirectory p = (.ok (), after)) :
    after.isDirectory p := by
  rw [secureDirectory] at secured
  split at secured
  next made =>
    cases secured
    obtain ⟨loc, -, sets, leads⟩ := makeDirectory_eq_ok made
    exact isDirectory_iff.mpr (entryAt?_eq_some_iff.mpr ⟨loc, leads, sets.here⟩)
  next =>
    split at secured
    next stands =>
      cases secured
      exact stands
    next => cases secured

theorem isDirectory_of_makeFirst {above : List Path} (filled : p.bytes ≠ [])
    (made : (makeFirst (p :: above) : StateM FileSystem _) before = (.ok (), after)) :
    after.isDirectory p := by
  by_cases noPlace : before.makeDirectory p = .error (.system .noEntry)
  · rw [run_makeFirst_of_noEntry filled noPlace] at made
    split at made
    next => cases made
    next => exact isDirectory_of_secureDirectory made
  · rw [run_makeFirst_of_ne_noEntry filled noPlace] at made
    exact isDirectory_of_secureDirectory made

theorem makeFirst_of_isDirectory {above : List Path} (stands : fs.isDirectory p) :
    (makeFirst (p :: above) : StateM FileSystem _) fs = (.ok (), fs) := by
  by_cases empty : p.bytes = []
  · exact run_makeFirst_of_empty empty
  obtain ⟨loc, leads, -⟩ := entryAt?_eq_some_iff.mp (isDirectory_iff.mp stands)
  have taken := makeDirectory_of_target? leads
  have place : fs.makeDirectory p ≠ .error (.system .noEntry) := by
    simp [taken, Errno.alreadyExists, Errno.noEntry]
  rw [run_makeFirst_of_ne_noEntry empty place, secureDirectory, taken]
  exact congrArg (·, fs) (if_pos stands)

end ElfCarve.FileSystem
