import ElfCarve.Proofs.Carving.Delivery

/-!
# What a successful carving leaves alone

A carving that succeeds writes one file, the one that the output leads to afterwards, and may add
directories where the beginnings of the output's directory lead.  Wherever links and dots take these
paths, nothing else changes: no other file gets another content, no link another target, and nothing
goes away.
-/

namespace ElfCarve

open FileSystem

variable {fs between after : FileSystem} {input output : Path} {report : Report}

/-- At a location there is now the file that a path leads to, and there was a file or nothing. -/
def FileSystem.WrittenAt (before : FileSystem) (output : Path) (after : FileSystem)
    (loc : Location) : Prop :=
  after.target? output = some loc ∧ (∃ content, after.get? loc = some (.file content)) ∧
    ∀ old, before.get? loc = some old → ∃ content, old = .file content

/-- At a location there is now a directory to which a beginning of a path's parent leads, and there
was nothing. -/
def FileSystem.FurnishedAt (before : FileSystem) (output : Path) (after : FileSystem)
    (loc : Location) : Prop :=
  before.get? loc = none ∧ after.get? loc = some .directory ∧
    ∃ parent q, output.parent? = some parent ∧ q.Begins parent ∧ q.bytes <+: parent.bytes ∧
      q.bytes ≠ [] ∧ after.target? q = some loc

theorem FileSystem.AddsDirectories.furnishedAt {loc : Location}
    (adds : fs.AddsDirectories output.surroundings between) (grows : between.Grows after)
    (changed : between.get? loc ≠ fs.get? loc) : fs.FurnishedAt output after loc := by
  cases before : fs.get? loc with
  | some entry => exact absurd ((adds.kept before).trans before.symm) changed
  | none =>
    obtain ⟨entry, present⟩ := Option.ne_none_iff_exists'.mp (before ▸ changed)
    obtain ⟨rfl, q, around, filled, leads⟩ := adds.added before present
    obtain ⟨parent, lies, begins⟩ := Path.begins_of_mem_surroundings around
    exact ⟨before, grows.directory present, parent, q, lies, begins, begins.isPrefix, filled,
      target?_of_grows grows leads⟩

theorem Delivery.changes {image : Bytes} (delivered : Delivery fs output image (.ok ()) after) :
    fs.Grows after ∧ ∀ loc, after.get? loc ≠ fs.get? loc →
      fs.WrittenAt output after loc ∨ fs.FurnishedAt output after loc := by
  obtain ⟨between, adds, ⟨rfl, -⟩ | ⟨target, sets, leads, kind⟩⟩ := delivered.effect_of_ok
  · exact ⟨adds.grows, fun _ changed => .inr (adds.furnishedAt (.refl _) changed)⟩
  · have grows := sets.grows kind
    refine ⟨adds.grows.trans grows, fun loc changed => ?_⟩
    by_cases same : target = loc
    · -- Here the file is created, or one that was there before all this gets its content.
      subst same
      refine .inl ⟨leads, ⟨image, sets.here⟩, fun old present => ?_⟩
      cases kind old (adds.kept present) with
      | file content => exact ⟨content, rfl⟩
      | same => exact ⟨image, rfl⟩
    · rw [sets.elsewhere same] at changed
      exact .inr (adds.furnishedAt grows changed)

/-- After a successful carving an entry is another one only if it is the file that the output leads
to, or a new directory to which a beginning of the path of the output's directory leads.  If the
output leads to a device, it is always such a directory.  Every other file keeps its content, every
link its target, and every entry its place and its kind. -/
theorem carveFile_frame
    (ended : ((carveFile input output : StateM FileSystem _) fs).1.2 = .ok report) :
    let after := ((carveFile input output : StateM FileSystem _) fs).2
    after.workingDirectory = fs.workingDirectory ∧
    (∀ loc, after.get? loc ≠ fs.get? loc →
      fs.WrittenAt output after loc ∨ fs.FurnishedAt output after loc) ∧
    (∀ device, after.entryAt? output = some (.device device) →
      ∀ loc, after.get? loc ≠ fs.get? loc → fs.FurnishedAt output after loc) ∧
    (∀ loc content, fs.get? loc = some (.file content) → after.target? output ≠ some loc →
      after.get? loc = some (.file content)) ∧
    (∀ loc target, fs.get? loc = some (.link target) → after.get? loc = some (.link target)) ∧
    (∀ loc entry, fs.get? loc = some entry →
      ∃ later, after.get? loc = some later ∧ entry.SameKind later) := by
  intro after
  obtain ⟨_, _, _, -, -, rfl, delivered⟩ := carveFile_eq_ok ended
  obtain ⟨grows, changes⟩ := delivered.changes
  refine ⟨grows.workingDirectory, changes, ?_, ?_, fun _ _ => grows.link, fun _ _ => grows.kept⟩
  · -- The output cannot lead to a file and to a device.
    intro device isDevice loc changed
    refine (changes loc changed).resolve_left fun ⟨leads, ⟨content, isFile⟩, _⟩ => ?_
    obtain ⟨target, toDevice, present⟩ := entryAt?_eq_some_iff.mp isDevice
    cases leads.symm.trans toDevice
    cases isFile.symm.trans present
  · intro loc content isFile elsewhere
    refine Decidable.of_not_not fun changed => ?_
    rw [← isFile] at changed
    rcases changes loc changed with written | furnished
    · exact elsewhere written.1
    · cases furnished.1.symm.trans isFile

/-- A directory can be added where the output does not lie in the end. -/
theorem carveFile_frame_aside :
    let input : Path := .ofText "a"
    let output : Path := .ofText "new/../other/b"
    let new : Location := [⟨Utf8.encode "new", by decide⟩, session, temporary]
    let after := ((carveFile input output : StateM FileSystem _) linkedSample).2
    ((carveFile input output : StateM FileSystem _) linkedSample).1.2 =
        .ok ⟨input, output, .padded 1, 1, 4⟩ ∧
      after.get? new ≠ linkedSample.get? new ∧ linkedSample.FurnishedAt output after new := by
  have ended : ((carveFile (.ofText "a") (.ofText "new/../other/b") : StateM FileSystem _)
      linkedSample).1.2 = .ok ⟨.ofText "a", .ofText "new/../other/b", .padded 1, 1, 4⟩ := by
    cbv
  have isDirectory : ((carveFile (.ofText "a") (.ofText "new/../other/b") : StateM FileSystem _)
      linkedSample).2.get? [⟨Utf8.encode "new", by decide⟩, session, temporary] =
        some .directory := by
    decide +kernel
  have free : linkedSample.get? [⟨Utf8.encode "new", by decide⟩, session, temporary] = none := by
    decide +kernel
  obtain ⟨-, changes, -⟩ := carveFile_frame ended
  have changed := changes [⟨Utf8.encode "new", by decide⟩, session, temporary]
    (by rw [isDirectory, free]; exact Option.some_ne_none _)
  refine ⟨ended, by rw [isDirectory, free]; exact Option.some_ne_none _, changed.resolve_left ?_⟩
  rintro ⟨-, ⟨_, isFile⟩, -⟩
  cases isDirectory.symm.trans isFile

end ElfCarve
