import ElfCarve.FileSystem.Fresh
import ElfCarve.Proofs.Carving.Runs
import ElfCarve.Proofs.Image.Search

/-!
# What a successful carving delivers

A report is a promise about files: it says where the image lay in the input, and the output then
holds exactly the bytes from there on.  That holds however the two paths are spelled and wherever
their links lead, also when both lead to one file.
-/

namespace ElfCarve

open FileSystem

theorem Delivery.entryAt? {fs after : FileSystem} {output : Path} {image : Bytes}
    (delivered : Delivery fs output image (.ok ()) after) :
    (∃ device, after.entryAt? output = some (.device device)) ∨
      after.entryAt? output = some (.file image) := by
  obtain ⟨between, -, ⟨-, device⟩ | ⟨loc, sets, leads, -⟩⟩ := delivered.effect_of_ok
  · exact .inl device
  · exact .inr (entryAt?_eq_some_iff.mpr ⟨loc, leads, sets.here⟩)

/-- A report tells what the input held before, and the output holds the image afterwards. -/
theorem carveFile_delivers {fs : FileSystem} {input output : Path} {report : Report}
    (ended : ((carveFile input output : StateM FileSystem _) fs).1.2 = .ok report) :
    let after := ((carveFile input output : StateM FileSystem _) fs).2
    ∃ data, fs.entryAt? input = some (.file data) ∧
      report.input = input ∧ report.output = output ∧
      layout? data = some report.layout ∧
      report.padding = report.layout.offset ∧
      report.padding + report.written = data.length ∧
      (∀ offset, report.layout = .padded offset → 0 < offset) ∧
      ((∃ device, after.entryAt? output = some (.device device)) ∨
        after.entryAt? output = some (.file (data.drop report.padding))) := by
  obtain ⟨data, layout, image, read, carved, rfl, delivered⟩ := carveFile_eq_ok ended
  obtain ⟨located, rfl⟩ := carve?_eq_some carved
  refine ⟨data, contents?_eq_some_iff.mp read, rfl, rfl, located, rfl,
    length_add_of_carve? carved, ?_, delivered.entryAt?⟩
  rintro offset rfl
  exact pos_of_layout?_eq_padded located

theorem valid_a : Name.Valid (Utf8.encode "a") := by
  decide

/-- A working directory with a file `a` of one byte of padding and a magic, and a link `b` to it. -/
def linkedSample : FileSystem :=
  let a : Name := ⟨Utf8.encode "a", valid_a⟩
  let b : Name := ⟨Utf8.encode "b", by decide⟩
  (fresh.add [session, temporary] a (.file (0 :: magic))).add [session, temporary] b
    (.link (.ofText "a"))

/-- The output may lead to the input, which is then cut down to the image. -/
theorem carveFile_delivers_in_place :
    let input : Path := .ofText "a"
    let output : Path := .ofText "b"
    let after := ((carveFile input output : StateM FileSystem _) linkedSample).2
    ((carveFile input output : StateM FileSystem _) linkedSample).1.2 =
        .ok ⟨input, output, .padded 1, 1, 4⟩ ∧
      (∃ data, linkedSample.entryAt? input = some (.file data) ∧
        layout? data = some (.padded 1) ∧ 1 + 4 = data.length ∧
        ((∃ device, after.entryAt? output = some (.device device)) ∨
          after.entryAt? output = some (.file (data.drop 1)))) ∧
      after.entryAt? input = some (.file magic) := by
  have ended : ((carveFile (.ofText "a") (.ofText "b") : StateM FileSystem _) linkedSample).1.2 =
      .ok ⟨.ofText "a", .ofText "b", .padded 1, 1, 4⟩ := by
    cbv
  obtain ⟨data, present, -, -, located, -, length, -, delivered⟩ := carveFile_delivers ended
  exact ⟨ended, ⟨data, present, located, length, delivered⟩, by decide +kernel⟩

end ElfCarve
