import ElfCarve.Proofs.Carving.Delivery

/-!
# How a carving fails and what it leaves behind

A carving fails for one of three reasons, and each of them is told by the file system alone: the
input is no regular file, it holds no image, or the output refuses the image.  The input is always
looked at first.  A failure that is due to the input changes nothing, and one that is due to the
output leaves everything that was there as it was and adds nothing but directories.
-/

namespace ElfCarve

open FileSystem

/-- An output refuses an image, for a cause and with a path that is to blame.  Either the directory
of the output cannot be made, or that could be done and the output itself cannot be written. -/
def FileSystem.Refuses (fs : FileSystem) (output : Path) (image : Bytes) (path : Path)
    (cause : Cause) : Prop :=
  (output.parent? = some path ∧ path.bytes ≠ [] ∧
      ((makeDirectories path : StateM FileSystem _) fs).1 = .error cause) ∨
    (path = output ∧ ∃ between,
      (ensureParent output : StateM FileSystem _) fs = (.ok (), between) ∧
      between.write output image = .error cause)

section

variable {fs after : FileSystem} {input output path : Path} {image : Bytes} {cause : Cause}
  {events : List Event} {result : Except Failure Report} {delivered : Except Failure Unit}

theorem Delivery.eq_noAccess_iff (ended : Delivery fs output image delivered after) :
    delivered = .error (.noAccess path cause) ↔ fs.Refuses output image path cause := by
  constructor
  · rintro rfl
    cases ended with
    | noParent lies filled failed _ => exact .inl ⟨lies, filled, by rw [failed]⟩
    | refused ensured failed => exact .inr ⟨rfl, _, ensured, failed⟩
  -- The parent and the output are each tried once, so a refusal fixes how the delivery ended.
  · rintro (⟨lies, filled, failed⟩ | ⟨rfl, between, ensured, failed⟩)
    · have notEnsured : (ensureParent output : StateM FileSystem _) fs = _ :=
        run_ensureParent_of_parent lies filled
      rw [failed] at notEnsured
      cases ended with
      | noParent _ _ _ ensured =>
        cases ensured.symm.trans notEnsured
        rfl
      | refused ensured _ | written ensured _ => cases ensured.symm.trans notEnsured
    · cases ended with
      | noParent _ _ _ notEnsured => cases notEnsured.symm.trans ensured
      | refused alike refused =>
        cases alike.symm.trans ensured
        cases refused.symm.trans failed
        rfl
      | written alike written =>
        cases alike.symm.trans ensured
        cases written.symm.trans failed

theorem Delivery.exists_noAccess {failure : Failure}
    (ended : Delivery fs output image (.error failure) after) :
    ∃ path cause, failure = .noAccess path cause := by
  cases ended with
  | noParent | refused => exact ⟨_, _, rfl⟩

theorem Carving.eq_noInput_iff (ended : Carving fs input output (events, result) after) :
    result = .error (.noInput path) ↔
      path = input ∧ ∀ data, fs.entryAt? input ≠ some (.file data) := by
  simp only [ne_eq, ← contents?_eq_some_iff]
  cases ended with
  | noInput missing => simp [missing, eq_comm]
  | noImage read | done read => simp [read]
  | refused read _ refused =>
    obtain ⟨_, _, rfl⟩ := refused.exists_noAccess
    simp [read]

theorem Carving.eq_noImage_iff (ended : Carving fs input output (events, result) after) :
    result = .error (.noImage path) ↔
      path = input ∧ ∃ data, fs.entryAt? input = some (.file data) ∧ ¬ magic <:+: data := by
  simp only [← contents?_eq_some_iff, ← carve?_eq_none_iff]
  cases ended with
  | noInput missing => simp [missing]
  | noImage read imageless => simp [read, imageless, eq_comm]
  | refused read carved refused =>
    obtain ⟨_, _, rfl⟩ := refused.exists_noAccess
    simp [read, carved]
  | done read carved => simp [read, carved]

theorem Carving.eq_noAccess_iff (ended : Carving fs input output (events, result) after) :
    result = .error (.noAccess path cause) ↔
      ∃ data layout image, fs.entryAt? input = some (.file data) ∧ magic <:+: data ∧
        carve? data = some (layout, image) ∧ fs.Refuses output image path cause := by
  simp only [← contents?_eq_some_iff]
  cases ended with
  | noInput missing => simp [missing]
  | noImage read imageless => simp [read, imageless]
  | @refused data image layout failure _ read carved refused =>
    have found : magic <:+: data :=
      Decidable.of_not_not fun imageless => by simp [carve?_eq_none_iff.mpr imageless] at carved
    constructor
    · rintro ⟨⟩
      exact ⟨data, layout, image, read, found, carved, refused.eq_noAccess_iff.mp rfl⟩
    · rintro ⟨_, _, _, alike, -, carvedAlike, refuses⟩
      cases read.symm.trans alike
      cases carved.symm.trans carvedAlike
      cases refused.eq_noAccess_iff.mpr refuses
      rfl
  | @done data image layout _ read carved delivered =>
    have accepted : ¬ fs.Refuses output image path cause := by
      simp [← delivered.eq_noAccess_iff]
    simp [read, carved, accepted]

theorem Carving.adds_of_noAccess
    (ended : Carving fs input output (events, .error (.noAccess path cause)) after) :
    fs.AddsDirectories output.surroundings after :=
  ended.adds_of_error

theorem Carving.eq_of_noInput_or_noImage
    (ended : Carving fs input output (events, result) after)
    (failed : result = .error (.noInput path) ∨ result = .error (.noImage path)) : after = fs := by
  cases ended with
  | noInput | noImage => rfl
  | refused _ _ refused =>
    obtain ⟨_, _, rfl⟩ := refused.exists_noAccess
    simp at failed
  | done => simp at failed

/-- Each failure has exactly one reason, which names the path to blame, and a failure leaves every
entry as it was.  Only a refusal of the output adds anything, and that is directories. -/
theorem carveFile_fails_iff (fs : FileSystem) (input output : Path) :
    let result := ((carveFile input output : StateM FileSystem _) fs).1.2
    let after := ((carveFile input output : StateM FileSystem _) fs).2
    (∀ path, result = .error (.noInput path) ↔
      path = input ∧ ∀ data, fs.entryAt? input ≠ some (.file data)) ∧
    (∀ path, result = .error (.noImage path) ↔
      path = input ∧ ∃ data, fs.entryAt? input = some (.file data) ∧ ¬ magic <:+: data) ∧
    (∀ path cause, result = .error (.noAccess path cause) ↔
      ∃ data layout image, fs.entryAt? input = some (.file data) ∧ magic <:+: data ∧
        carve? data = some (layout, image) ∧ fs.Refuses output image path cause) ∧
    (∀ path, result = .error (.noInput path) ∨ result = .error (.noImage path) → after = fs) ∧
    (∀ path cause, result = .error (.noAccess path cause) →
      (∀ loc entry, fs.get? loc = some entry → after.get? loc = some entry) ∧
      ∀ loc entry, fs.get? loc = none → after.get? loc = some entry → entry = .directory) := by
  intro result after
  have ended : Carving fs input output (_, result) after := carving fs input output
  refine ⟨fun _ => ended.eq_noInput_iff, fun _ => ended.eq_noImage_iff,
    fun _ _ => ended.eq_noAccess_iff, fun _ => ended.eq_of_noInput_or_noImage, ?_⟩
  intro path cause failed
  rw [failed] at ended
  have adds := ended.adds_of_noAccess
  exact ⟨fun _ _ => adds.kept, fun _ _ free present => (adds.added free present).1⟩

end

/-- The directory of an output may be refused after some of those above it have been made. -/
example :
    ((carveFile (.ofText "a") (.ofText "new/../a/out") : StateM FileSystem _) linkedSample).1.2 =
      .error (.noAccess (.ofText "new/../a") (.system .alreadyExists)) := by
  cbv

example :
    ((carveFile (.ofText "a") (.ofText "new/../a/out") : StateM FileSystem _) linkedSample).2.get?
      [⟨Utf8.encode "new", by decide⟩, session, temporary] = some .directory := by
  decide +kernel

end ElfCarve
