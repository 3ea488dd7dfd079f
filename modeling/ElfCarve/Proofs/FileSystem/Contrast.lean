import ElfCarve.Proofs.FileSystem.Directories

/-!
# File systems that differ in the content of one file

Walking and making directories do not look into files.  In two file systems that differ only in the
content of one file they therefore go the same way and end alike, and the difference stays as it is.
Only a write can change that: a write to the file itself makes the two file systems equal.

* `Differs` is the relation of two such file systems.
* `Differs.resolve` says that every path is resolved alike in them.
* `IgnoresContents` is a property of computations, which is kept by sequencing.
* `WrittenAlike` tells how writing a path can end, and `Differs.write` that it ends so.
-/

namespace ElfCarve.FileSystem

variable {one two : FileSystem} {loc other : Location} {a b : Bytes} {p : Path} {intent : Intent}

/-- Two file systems have a file at one location, with a content of its own in each of them, and are
the same everywhere else. -/
structure Differs (one : FileSystem) (loc : Location) (a b : Bytes) (two : FileSystem) : Prop where
  workingDirectory : one.workingDirectory = two.workingDirectory
  left : one.get? loc = some (.file a)
  right : two.get? loc = some (.file b)
  elsewhere : ∀ {other}, loc ≠ other → one.get? other = two.get? other

namespace Differs

theorem get?_cases (differs : one.Differs loc a b two) (other : Location) :
    one.get? other = two.get? other ∨
      one.get? other = some (.file a) ∧ two.get? other = some (.file b) := by
  by_cases same : loc = other
  · subst same
    exact .inr ⟨differs.left, differs.right⟩
  · exact .inl (differs.elsewhere same)

theorem get?_eq_directory_iff (differs : one.Differs loc a b two) :
    one.get? other = some .directory ↔ two.get? other = some .directory := by
  rcases differs.get?_cases other with same | ⟨left, right⟩
  · rw [same]
  · simp [left, right]

theorem get?_eq_none_iff (differs : one.Differs loc a b two) :
    one.get? other = none ↔ two.get? other = none := by
  rcases differs.get?_cases other with same | ⟨left, right⟩
  · rw [same]
  · simp [left, right]

/-! ### Walking -/

theorem walkWith (differs : one.Differs loc a b two)
    (follow : Location → List Component → Except Errno Landing) (here : Location)
    (components : List Component) :
    one.walkWith intent follow here components = two.walkWith intent follow here components := by
  induction components generalizing here with
  | nil => rw [walkWith_nil, walkWith_nil]
  | cons component rest ih =>
    by_cases isDirectory : one.get? here = some .directory
    · have isDirectoryToo := differs.get?_eq_directory_iff.mp isDirectory
      cases component with
      | blank =>
        rw [walkWith_stay isDirectory (.inl rfl), walkWith_stay isDirectoryToo (.inl rfl), ih]
      | stay =>
        rw [walkWith_stay isDirectory (.inr rfl), walkWith_stay isDirectoryToo (.inr rfl), ih]
      | up => rw [walkWith_up isDirectory, walkWith_up isDirectoryToo, ih]
      | overlong => rw [walkWith_overlong isDirectory, walkWith_overlong isDirectoryToo]
      | child name =>
        rw [walkWith_child isDirectory, walkWith_child isDirectoryToo]
        -- A file is passed in the same way whatever it holds.
        rcases differs.get?_cases (name :: here) with same | ⟨left, right⟩
        · rw [same]
          simp only [ih]
        · rw [left, right]
          simp only [ih]
    · have noDirectory := mt differs.get?_eq_directory_iff.mpr isDirectory
      rw [walkWith_of_not_directory isDirectory, walkWith_of_not_directory noDirectory]

theorem walk (differs : one.Differs loc a b two) (links : Nat) :
    one.walk intent links = two.walk intent links := by
  funext here components
  induction links generalizing here components with
  | zero => exact differs.walkWith _ here components
  | succ links ih =>
    have follow : one.walk intent links = two.walk intent links := by
      funext here components
      exact ih here components
    rw [FileSystem.walk, FileSystem.walk, follow]
    exact differs.walkWith _ here components

theorem resolve (differs : one.Differs loc a b two) (intent : Intent) (p : Path) :
    one.resolve intent p = two.resolve intent p := by
  rw [FileSystem.resolve, FileSystem.resolve, differs.walk, differs.workingDirectory]

theorem target? (differs : one.Differs loc a b two) (p : Path) : one.target? p = two.target? p := by
  rw [FileSystem.target?, FileSystem.target?, differs.resolve]

theorem isDirectory (differs : one.Differs loc a b two) (p : Path) :
    one.isDirectory p = two.isDirectory p := by
  rw [Bool.eq_iff_iff, isDirectory_iff, isDirectory_iff, entryAt?_eq_some_iff,
    entryAt?_eq_some_iff, differs.target?]
  simp only [differs.get?_eq_directory_iff]

/-! ### New entries -/

theorem sets {one' two' : FileSystem} {entry : Entry} (differs : one.Differs loc a b two)
    (setsOne : one.Sets other entry one') (setsTwo : two.Sets other entry two')
    (aside : other ≠ loc) : one'.Differs loc a b two' := by
  refine ⟨?_, ?_, ?_, fun {third} third_ne => ?_⟩
  · rw [setsOne.workingDirectory, setsTwo.workingDirectory, differs.workingDirectory]
  · rw [setsOne.elsewhere aside, differs.left]
  · rw [setsTwo.elsewhere aside, differs.right]
  · rw [setsOne.get?, setsTwo.get?, differs.elsewhere third_ne]

theorem eq_of_sets {one' two' : FileSystem} {entry : Entry} (differs : one.Differs loc a b two)
    (setsOne : one.Sets loc entry one') (setsTwo : two.Sets loc entry two') : one' = two' := by
  refine FileSystem.ext ?_ fun third => ?_
  · rw [setsOne.workingDirectory, setsTwo.workingDirectory, differs.workingDirectory]
  · rw [setsOne.get?, setsTwo.get?]
    split
    next => rfl
    next elsewhere => exact differs.elsewhere elsewhere

theorem add {dir : Location} {name : Name} (differs : one.Differs loc a b two)
    (isDirectory : one.get? dir = some .directory) (free : one.get? (name :: dir) = none)
    (entry : Entry) : (one.add dir name entry).Differs loc a b (two.add dir name entry) := by
  have setsOne := sets_add isDirectory free entry
  have setsTwo := sets_add (differs.get?_eq_directory_iff.mp isDirectory)
    (differs.get?_eq_none_iff.mp free) entry
  refine differs.sets setsOne setsTwo ?_
  rintro rfl
  simp [differs.left] at free

end Differs

theorem differs_add {fs : FileSystem} {dir : Location} {name : Name}
    (isDirectory : fs.get? dir = some .directory) (free : fs.get? (name :: dir) = none)
    (a b : Bytes) :
    (fs.add dir name (.file a)).Differs (name :: dir) a b (fs.add dir name (.file b)) := by
  have setsOne := sets_add isDirectory free (.file a)
  have setsTwo := sets_add isDirectory free (.file b)
  refine ⟨?_, setsOne.here, setsTwo.here, fun other_ne => ?_⟩
  · rw [setsOne.workingDirectory, setsTwo.workingDirectory]
  · rw [setsOne.elsewhere other_ne, setsTwo.elsewhere other_ne]

/-! ## Computations that do not look into files -/

/-- A computation comes to the same whatever a file holds, and leaves the file alone. -/
def IgnoresContents {α : Type} (run : StateM FileSystem α) : Prop :=
  ∀ ⦃one two loc a b⦄, one.Differs loc a b two →
    (run one).1 = (run two).1 ∧ (run one).2.Differs loc a b (run two).2

namespace IgnoresContents

theorem pure {α : Type} (result : α) :
    IgnoresContents (Pure.pure result : StateM FileSystem α) :=
  fun _ _ _ _ _ differs => ⟨rfl, differs⟩

theorem bind {α β : Type} {first : StateM FileSystem α} {next : α → StateM FileSystem β}
    (ignoresFirst : IgnoresContents first) (ignoresNext : ∀ result, IgnoresContents (next result)) :
    IgnoresContents (first >>= next) := by
  intro one two loc a b differs
  obtain ⟨same, between⟩ := ignoresFirst differs
  rw [run_bind, run_bind, ← same]
  exact ignoresNext (first one).1 between

theorem isDirectory (p : Path) : IgnoresContents (MonadFiles.isDirectory p) :=
  fun _ _ _ _ _ differs => ⟨differs.isDirectory p, differs⟩

theorem makeDirectory (p : Path) : IgnoresContents (MonadFiles.makeDirectory p) := by
  intro one two loc a b differs
  rw [run_makeDirectory, run_makeDirectory]
  simp only [attempt, FileSystem.makeDirectory, place, ← differs.resolve]
  cases resolved : one.resolve .bind p with
  | error cause => exact ⟨rfl, differs⟩
  | ok landing =>
    cases landing with
    | found => exact ⟨rfl, differs⟩
    | free dir name =>
      obtain ⟨isDirectory, vacant⟩ := vacant_of_resolve_free resolved
      exact ⟨rfl, differs.add isDirectory vacant .directory⟩

theorem orStanding (p : Path) (made : Except Cause Unit) :
    IgnoresContents (ElfCarve.orStanding p made) := by
  cases made with
  | ok => exact pure _
  | error cause =>
    refine (isDirectory p).bind fun stands => ?_
    cases stands <;> exact pure _

theorem makeFirst (paths : List Path) : IgnoresContents (ElfCarve.makeFirst paths) := by
  induction paths with
  | nil => exact pure _
  | cons p above ih =>
    rw [ElfCarve.makeFirst]
    split
    next => exact pure _
    next =>
      refine (makeDirectory p).bind fun made => ?_
      split
      next =>
        refine ih.bind fun madeAbove => ?_
        cases madeAbove with
        | error cause => exact pure _
        | ok => exact (makeDirectory p).bind fun madeAgain => orStanding p madeAgain
      next => exact orStanding p _

end IgnoresContents

/-! ## Writing -/

/-- How writing a path ends in two file systems that differ in the content of a file: the results
are equal, and the difference is as it was or it is gone. -/
inductive WrittenAlike (p : Path) (loc : Location) (a b : Bytes) {ε α : Type} :
    Except ε α × FileSystem → Except ε α × FileSystem → Prop
  | aside {result one two} (differs : one.Differs loc a b two)
      (elsewhere : ∀ value, result = .ok value → one.target? p ≠ some loc) :
      WrittenAlike p loc a b (result, one) (result, two)
  | onto {value fs} (leads : fs.target? p = some loc) :
      WrittenAlike p loc a b (.ok value, fs) (.ok value, fs)

namespace WrittenAlike

variable {ε ε' α β : Type} {ended ended' : Except ε α × FileSystem}

theorem failed (differs : one.Differs loc a b two) (failure : ε) :
    WrittenAlike p loc a b ((.error failure, one) : Except ε α × FileSystem)
      (.error failure, two) := by
  refine .aside differs fun value succeeded => ?_
  cases succeeded

theorem map (alike : WrittenAlike p loc a b ended ended') (f : α → β) :
    WrittenAlike p loc a b (ended.1.map f, ended.2) (ended'.1.map f, ended'.2) := by
  cases alike with
  | @aside result one two differs elsewhere =>
    cases result with
    | error => exact failed differs _
    | ok value => exact .aside differs fun _ _ => elsewhere value rfl
  | onto leads => exact .onto leads

theorem mapError (alike : WrittenAlike p loc a b ended ended') (f : ε → ε') :
    WrittenAlike p loc a b (ended.1.mapError f, ended.2) (ended'.1.mapError f, ended'.2) := by
  cases alike with
  | @aside result one two differs elsewhere =>
    cases result with
    | error => exact failed differs _
    | ok value => exact .aside differs fun _ _ => elsewhere value rfl
  | onto leads => exact .onto leads

theorem result_eq (alike : WrittenAlike p loc a b ended ended') : ended.1 = ended'.1 := by
  cases alike <;> rfl

theorem eq_of_written (alike : WrittenAlike p loc a b ended ended')
    (written : (∃ value, ended.1 = .ok value) ∧ ended.2.target? p = some loc) :
    ended.2 = ended'.2 := by
  cases alike with
  | aside _ elsewhere =>
    obtain ⟨⟨value, succeeded⟩, leads⟩ := written
    exact absurd leads (elsewhere value succeeded)
  | onto => rfl

theorem differs_of_not_written (alike : WrittenAlike p loc a b ended ended')
    (aside : ¬ ((∃ value, ended.1 = .ok value) ∧ ended.2.target? p = some loc)) :
    ended.2.Differs loc a b ended'.2 := by
  cases alike with
  | aside differs => exact differs
  | onto leads => exact absurd ⟨⟨_, rfl⟩, leads⟩ aside

end WrittenAlike

theorem Differs.write (differs : one.Differs loc a b two) (p : Path) (content : Bytes) :
    WrittenAlike p loc a b (attempt (·.write p content) one)
      (attempt (·.write p content) two) := by
  simp only [attempt, FileSystem.write, ← differs.resolve]
  cases resolved : one.resolve .create p with
  | error cause => exact .failed differs _
  | ok landing =>
    cases landing with
    | free dir name =>
      obtain ⟨isDirectory, vacant⟩ := vacant_of_resolve_free resolved
      have leads := target?_of_resolve_free resolved (sets_add isDirectory vacant (.file content))
        (fun _ => Entry.noConfusion) (.inl rfl)
      refine .aside (differs.add isDirectory vacant _) fun _ _ leadsToFile => ?_
      cases leads.symm.trans leadsToFile
      cases vacant.symm.trans differs.left
    | found here =>
      have leads := target?_of_resolve_create resolved
      by_cases same : loc = here
      · subst same
        simp only [differs.left, differs.right]
        have setsOne := sets_overwrite differs.left content
        have setsTwo := sets_overwrite differs.right content
        rw [← differs.eq_of_sets setsOne setsTwo]
        exact .onto (target?_of_grows (setsOne.grows_of_file differs.left) leads)
      · -- Elsewhere the same entry stands in both.
        simp only [← differs.elsewhere same]
        have aside {after : FileSystem} (grows : one.Grows after) : after.target? p ≠ some loc := by
          rw [target?_of_grows grows leads]
          simp [Ne.symm same]
        cases present : one.get? here with
        | none => exact .failed differs _
        | some entry =>
          cases entry with
          | directory | link => exact .failed differs _
          | file old =>
            have setsOne := sets_overwrite present content
            have setsTwo := sets_overwrite ((differs.elsewhere same).symm.trans present) content
            exact .aside (differs.sets setsOne setsTwo (Ne.symm same))
              fun _ _ => aside (setsOne.grows_of_file present)
          | device device =>
            dsimp only
            cases device.refusal? content with
            | none => exact .aside differs fun _ _ => aside (.refl one)
            | some errno => exact .failed differs _

end ElfCarve.FileSystem
