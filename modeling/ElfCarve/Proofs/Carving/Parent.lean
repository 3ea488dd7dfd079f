import ElfCarve.Proofs.Carving.Account
import ElfCarve.Proofs.Carving.Frame
import ElfCarve.Proofs.FileSystem.Obstacle
import ElfCarve.Proofs.Path.Parent

/-!
# Making the directory of a path

In any file system, making the directory of a path adds directories to which beginnings of its
parent lead and does nothing else, whether it succeeds or fails, and a failure names the parent.

In a file system without links the directory of a plain path is made exactly if nothing but
directories stands along its names and none of them is too long.  What is added then are the missing
directories along the names, as far as they can be made.
-/

namespace ElfCarve

open FileSystem Overlay

variable {fs before after : FileSystem} {path parent : Path} {count i : Nat} {loc : Location}

/-- Making the directory of a path leaves every entry as it is and adds directories only, each of
them where a beginning of the parent leads.  After a success the parent leads to a directory and
there is nothing more to make; a failure names the parent. -/
theorem ensureParent_adds_surroundings (fs : FileSystem) (path : Path) :
    let result := ((ensureParent path : StateM FileSystem _) fs).1
    let after := ((ensureParent path : StateM FileSystem _) fs).2
    after.workingDirectory = fs.workingDirectory ∧
    (∀ loc entry, fs.get? loc = some entry → after.get? loc = some entry) ∧
    (∀ loc, after.get? loc ≠ fs.get? loc → fs.FurnishedAt path after loc) ∧
    (result = .ok () →
      (∀ parent, path.parent? = some parent → parent.bytes ≠ [] → after.isDirectory parent) ∧
      (ensureParent path : StateM FileSystem _) after = (.ok (), after)) ∧
    (∀ failure, result = .error failure →
      ∃ parent cause, path.parent? = some parent ∧ parent.bytes ≠ [] ∧
        failure = .noAccess parent cause) := by
  intro result after
  have adds : fs.AddsDirectories path.surroundings after := ensureParent_adds fs path
  refine ⟨adds.workingDirectory, fun _ _ => adds.kept,
    fun loc => adds.furnishedAt (.refl after), ?_, ?_⟩
  · intro succeeded
    have ensured : (ensureParent path : StateM FileSystem _) fs = (.ok (), after) :=
      Prod.ext succeeded rfl
    exact ⟨fun parent lies filled => isDirectory_of_ensureParent lies filled ensured,
      ensureParent_again ensured (.refl after)⟩
  · intro failure failed
    have refused : (ensureParent path : StateM FileSystem _) fs = (.error failure, after) :=
      Prod.ext failed rfl
    obtain ⟨parent, cause, lies, filled, -, named⟩ := ensureParent_eq_error refused
    exact ⟨parent, cause, lies, filled, named⟩

/-! ## Making the directory of a plain path -/

theorem ensureParent_of_survey (linkFree : fs.LinkFree) (plain : path.IsPlain)
    (lies : path.parent? = some parent) (walkable : Walkable parent) :
    ∃ survey, fs.Surveyed fs.workingDirectory
        (path.segments.take (path.segments.length - 1)) survey ∧
      ((ensureParent path : StateM FileSystem _) fs).1 =
        (survey.result.map fun _ => ()).mapError (.noAccess parent ∘ .system) ∧
      fs.Overlaid (directories survey.directories)
        ((ensureParent path : StateM FileSystem _) fs).2 := by
  obtain ⟨front, last, names, segments, rfl⟩ := plain.exists_concat
  cases lies.symm.trans (Path.parent?_ofSegments_concat names)
  have beginning : (Path.ofSegments (front ++ [last])).segments.take
      ((Path.ofSegments (front ++ [last])).segments.length - 1) = front := by
    simp [segments]
  have bears := bears_makeDirectories linkFree names.of_concat (.inr walkable)
  rw [beginning, run_ensureParent_concat names]
  refine ⟨_, surveyed fs _ front, ?_, bears.overlaid⟩
  rw [bears.result]
  cases (fs.survey fs.workingDirectory (front.map Component.ofSegment)).result <;> rfl

/-- In a file system without links the directory of a plain path of two or more names is made
exactly if none of the names above the last is too long and nothing but directories stands along
them, and then the missing directories are added and nothing else.  Something in the way fails it
without a change.  Otherwise the first name that is too long fails it, after the missing directories
before that name have been added. -/
theorem ensureParent_furnishes (linkFree : fs.LinkFree) (plain : path.IsPlain)
    (deep : 2 ≤ path.segments.length) (noZero : 0 ∉ path.bytes) (lies : path.parent? = some parent)
    (short : parent.bytes.length < pathLimit) :
    let count := path.segments.length - 1
    let result := ((ensureParent path : StateM FileSystem _) fs).1
    let after := ((ensureParent path : StateM FileSystem _) fs).2
    (result = .ok () ↔
      (∀ segment ∈ path.segments.take count, segment.length ≤ 255) ∧
        ∀ i, 0 < i → i ≤ count → ¬ fs.Obstructs (path.first i)) ∧
    (result = .ok () → fs.Furnishes path count after) ∧
    (∀ i, 0 < i → i ≤ count → fs.Obstructs (path.first i) →
      result = .error (.noAccess parent
        (.system (if i = count then .alreadyExists else .notDirectory))) ∧ after = fs) ∧
    (∀ i segment, (∀ k, 0 < k → k ≤ count → ¬ fs.Obstructs (path.first k)) → i < count →
      path.segments[i]? = some segment → 255 < segment.length →
      (∀ k < i, ∀ other, path.segments[k]? = some other → other.length ≤ 255) →
      result = .error (.noAccess parent (.system .nameTooLong)) ∧ fs.Furnishes path i after) := by
  intro count result after
  have bound : count ≤ path.segments.length := Nat.sub_le _ _
  have isFirst : parent = path.first count := Option.some.inj (lies.symm.trans plain.parent?)
  have walkable : Walkable parent := by
    refine ⟨fun zero => noZero ((Path.prefix_of_parent? lies).subset zero), ?_, short⟩
    rw [isFirst]
    exact plain.first_bytes_ne_nil (by omega)
  have walkableFirst (i : Nat) (positive : 0 < i) (within : i ≤ count) : Walkable (path.first i) :=
    walkable.of_prefix (isFirst ▸ path.prefix_first positive within)
      (plain.first_bytes_ne_nil positive)
  obtain ⟨survey, found, told, laid⟩ := ensureParent_of_survey linkFree plain lies walkable
  have isOk_iff : result = .ok () ↔ ∃ dir, survey.result = .ok dir := by
    change result = _ at told
    rw [told]
    cases survey.result <;> simp [Except.map, Except.mapError]
  have refused {errno : Errno} (failed : survey.result = .error errno) :
      result = .error (.noAccess parent (.system errno)) := by
    change result = _ at told
    rw [told, failed]
    rfl
  refine ⟨?_, ?_, ?_, ?_⟩
  · exact isOk_iff.trans (found.isOk_iff_first linkFree plain walkableFirst noZero)
  · intro succeeded
    obtain ⟨dir, isOk⟩ := isOk_iff.mp succeeded
    exact found.furnishes laid isOk
  · intro i positive within obstructs
    obtain ⟨failed, unchanged⟩ :=
      found.of_obstructs linkFree plain walkableFirst laid bound positive within obstructs
    exact ⟨refused failed, unchanged⟩
  · intro i segment free before segmentAt long shortBefore
    obtain ⟨failed, furnishes⟩ := found.of_overlong linkFree plain walkableFirst laid noZero free
      before segmentAt long shortBefore
    exact ⟨refused failed, furnishes⟩

def overlongSample : Path :=
  .ofSegments [Utf8.encode "new", List.replicate 256 0x78, Utf8.encode "deep", Utf8.encode "b"]

/-- The directory before the name that is too long is made, and the parent is to blame. -/
theorem ensureParent_furnishes_before_overlong :
    let parent := overlongSample.first 3
    let after := ((ensureParent overlongSample : StateM FileSystem _) fresh).2
    overlongSample.IsPlain ∧ overlongSample.segments.length = 4 ∧
      ((ensureParent overlongSample : StateM FileSystem _) fresh).1 =
        .error (.noAccess parent (.system .nameTooLong)) ∧
      fresh.Furnishes overlongSample 1 after ∧
      fresh.entryAt? (.ofText "new") = none ∧ after.entryAt? (.ofText "new") = some .directory := by
  have plain : overlongSample.IsPlain := by decide +kernel
  have length : overlongSample.segments.length = 4 := by decide +kernel
  have lies : overlongSample.parent? = some (overlongSample.first 3) := by decide +kernel
  have missing : ∀ k < 4, 0 < k → fresh.entryAt? (overlongSample.first k) = none := by
    decide +kernel
  have free (k : Nat) (positive : 0 < k) (within : k ≤ overlongSample.segments.length - 1) :
      ¬ fresh.Obstructs (overlongSample.first k) := by
    rintro ⟨entry, present, -⟩
    rw [length] at within
    cases (missing k (by omega) positive).symm.trans present
  have short : ∀ k < 1, ∀ other ∈ overlongSample.segments[k]?, other.length ≤ 255 := by
    decide +kernel
  obtain ⟨-, -, -, fails⟩ := ensureParent_furnishes linkFree_fresh plain (by rw [length]; decide)
    (by decide +kernel) lies (by decide +kernel)
  obtain ⟨failed, furnishes⟩ := fails 1 (List.replicate 256 0x78) free (by rw [length]; decide)
    (by decide +kernel) (by decide +kernel) short
  exact ⟨plain, length, failed, furnishes, by decide +kernel, by decide +kernel⟩

end ElfCarve
