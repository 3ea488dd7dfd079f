import ElfCarve.Proofs.Carving.Refusal

/-!
# Carving again

What a carving wrote is a bare image.  A further carving with the output for its input therefore
copies it, and one that writes where the first one wrote finds everything in place and changes
nothing.  That holds of the first carving itself when it is repeated, also if it cut its own input.
-/

namespace ElfCarve

open FileSystem

variable {fs after : FileSystem} {input output path : Path} {image content : Bytes}

theorem Delivery.contents? {old : Bytes}
    (delivered : Delivery fs output image (.ok ()) after) (present : fs.contents? path = some old) :
    after.contents? path = some old ∨ after.contents? path = some image := by
  simp only [contents?_eq_some_iff, entryAt?_eq_some_iff] at present ⊢
  obtain ⟨loc, leads, isFile⟩ := present
  obtain ⟨between, adds, ⟨rfl, -⟩ | ⟨written, sets, -, kind⟩⟩ := delivered.effect_of_ok
  · exact .inl ⟨loc, target?_of_grows adds.grows leads, adds.kept isFile⟩
  · have leadsAfter := target?_of_grows (adds.grows.trans (sets.grows kind)) leads
    by_cases same : written = loc
    · subst same
      exact .inr ⟨written, leadsAfter, sets.here⟩
    · exact .inl ⟨loc, leadsAfter, (sets.elsewhere same).trans (adds.kept isFile)⟩

theorem Delivery.again (delivered : Delivery fs output image (.ok ()) after)
    (stored : after.contents? output = some image) :
    (writeOutput output image : StateM FileSystem _) after = (.ok (), after) := by
  cases delivered with
  | @written between _ ensured written =>
    have grows := grows_of_write written
    rw [run_writeOutput_of_ok (ensureParent_again ensured grows), write_same stored]

/-- After a delivery to a file the same image is carved again from any file that holds it, or data
in which it lies, and nothing changes. -/
theorem Delivery.run_carveFile {data : Bytes} {layout : Layout}
    (delivered : Delivery fs output image (.ok ()) after)
    (stored : after.contents? output = some image) (read : after.contents? path = some data)
    (carved : carve? data = some (layout, image)) :
    (carveFile path output : StateM FileSystem _) after =
      ((findings path layout data, .ok ⟨path, output, layout, layout.offset, image.length⟩),
        after) := by
  rw [run_carveFile_of_carve? read carved, delivered.again stored]
  rfl

theorem Carving.of_image {events : List Event} {result : Except Failure Report}
    (ended : Carving fs input output (events, result) after)
    (stored : fs.contents? input = some image) (bare : magic <+: image) :
    (∃ path cause, result = .error (.noAccess path cause)) ∨
      result = .ok ⟨input, output, .bare, 0, image.length⟩ ∧
        ((∃ device, after.entryAt? output = some (.device device)) ∨
          after.entryAt? output = some (.file image)) := by
  have carvedWhole := carve?_of_prefix bare
  cases ended with
  | noInput missing => cases stored.symm.trans missing
  | noImage read imageless =>
    cases stored.symm.trans read
    cases carvedWhole.symm.trans imageless
  | refused _ _ refused =>
    obtain ⟨path, cause, rfl⟩ := refused.exists_noAccess
    exact .inl ⟨path, cause, rfl⟩
  | done read carved delivered =>
    cases stored.symm.trans read
    cases carvedWhole.symm.trans carved
    exact .inr ⟨rfl, delivered.entryAt?⟩

/-- After a carving into a file, the same carving and a carving of the output into itself succeed
and change nothing, and a carving of the output into another path copies it or is refused by that
path. -/
theorem carveFile_again {report : Report}
    (ended : ((carveFile input output : StateM FileSystem _) fs).1.2 = .ok report)
    (stored : ((carveFile input output : StateM FileSystem _) fs).2.entryAt? output =
      some (.file content)) :
    let after := ((carveFile input output : StateM FileSystem _) fs).2
    (∃ again, ((carveFile input output : StateM FileSystem _) after).1.2 = .ok again ∧
      again.written = report.written ∧
      ((carveFile input output : StateM FileSystem _) after).2 = after) ∧
    (((carveFile output output : StateM FileSystem _) after).1.2 =
        .ok ⟨output, output, .bare, 0, report.written⟩ ∧
      ((carveFile output output : StateM FileSystem _) after).2 = after) ∧
    ∀ other,
      let result := ((carveFile output other : StateM FileSystem _) after).1.2
      let later := ((carveFile output other : StateM FileSystem _) after).2
      (∃ path cause, result = .error (.noAccess path cause)) ∨
        result = .ok ⟨output, other, .bare, 0, report.written⟩ ∧
          ((∃ device, later.entryAt? other = some (.device device)) ∨
            later.entryAt? other = some (.file content)) := by
  intro after
  obtain ⟨data, layout, image, read, carved, rfl, delivered⟩ := carveFile_eq_ok ended
  -- The output leads to a file, so what it holds is the image.
  have isImage : content = image := by
    rcases delivered.entryAt? with ⟨device, isDevice⟩ | isFile
    · cases stored.symm.trans isDevice
    · cases stored.symm.trans isFile
      rfl
  subst isImage
  have readAgain := contents?_eq_some_iff.mpr stored
  have copied := delivered.run_carveFile readAgain readAgain (carve?_image carved)
  refine ⟨?_, ?_, fun other => ?_⟩
  · -- The input is as before, or it is the output itself and has been cut down to the image.
    rcases delivered.contents? read with readBefore | readImage
    · have repeated := delivered.run_carveFile readAgain readBefore carved
      refine ⟨⟨input, output, layout, layout.offset, content.length⟩, ?_, rfl, ?_⟩ <;> rw [repeated]
    · have repeated := delivered.run_carveFile readAgain readImage (carve?_image carved)
      refine ⟨⟨input, output, .bare, 0, content.length⟩, ?_, rfl, ?_⟩ <;> rw [repeated]
      rfl
  · exact ⟨by rw [copied]; rfl, by rw [copied]⟩
  · exact (carving after output other).of_image readAgain (prefix_of_carve? carved)

/-- A carving that cuts down its own input is repeated as a copy. -/
theorem carveFile_again_in_place :
    let input : Path := .ofText "b"
    let output : Path := .ofText "new/../a"
    let after := ((carveFile input output : StateM FileSystem _) linkedSample).2
    ((carveFile input output : StateM FileSystem _) linkedSample).1.2 =
        .ok ⟨input, output, .padded 1, 1, 4⟩ ∧
      after.entryAt? output = some (.file magic) ∧
      (∃ again, ((carveFile input output : StateM FileSystem _) after).1.2 = .ok again ∧
        again.written = 4 ∧ ((carveFile input output : StateM FileSystem _) after).2 = after) ∧
      ((carveFile output output : StateM FileSystem _) after).1.2 =
        .ok ⟨output, output, .bare, 0, 4⟩ := by
  have ended : ((carveFile (.ofText "b") (.ofText "new/../a") : StateM FileSystem _)
      linkedSample).1.2 = .ok ⟨.ofText "b", .ofText "new/../a", .padded 1, 1, 4⟩ := by
    cbv
  have stored : ((carveFile (.ofText "b") (.ofText "new/../a") : StateM FileSystem _)
      linkedSample).2.entryAt? (.ofText "new/../a") = some (.file magic) := by
    decide +kernel
  obtain ⟨repeated, ⟨copied, -⟩, -⟩ := carveFile_again ended stored
  exact ⟨ended, stored, repeated, copied⟩

end ElfCarve
