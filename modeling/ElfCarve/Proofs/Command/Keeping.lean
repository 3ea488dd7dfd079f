import ElfCarve.Proofs.Carving.Frame
import ElfCarve.Proofs.Command.Runs

/-!
# Files that a failed run keeps

A run that does not end well leaves all files as they were, with one exception: where the work is
done and only its report cannot be printed, the output has been written by then.
-/

namespace ElfCarve

open FileSystem

variable {before fs after : FileSystem} {input output : Path} {image : Bytes} {paths : List Path}

/-- Every file keeps its content, at its location and by each path that leads to it. -/
def FileSystem.KeepsFiles (before after : FileSystem) : Prop :=
  (∀ loc content, before.get? loc = some (.file content) → after.get? loc = some (.file content)) ∧
    ∀ path content, before.contents? path = some content → after.contents? path = some content

theorem FileSystem.AddsDirectories.keepsFiles (adds : before.AddsDirectories paths after) :
    before.KeepsFiles after := by
  refine ⟨fun _ _ => adds.kept, fun path content present => ?_⟩
  rw [contents?_eq_some_iff, entryAt?_eq_some_iff] at present ⊢
  obtain ⟨loc, leads, isFile⟩ := present
  exact ⟨loc, target?_of_grows adds.grows leads, adds.kept isFile⟩

theorem Delivery.keeps {loc : Location} {content : Bytes}
    (delivered : Delivery fs output image (.ok ()) after)
    (isFile : fs.get? loc = some (.file content)) (elsewhere : after.target? output ≠ some loc) :
    after.get? loc = some (.file content) := by
  by_contra changed
  rw [← isFile] at changed
  rcases delivered.changes.2 loc changed with written | furnished
  · exact elsewhere written.1
  · exact absurd (furnished.1.symm.trans isFile) (by simp)

namespace Command

variable {arguments : List Bytes} {directives : Option String} {options : Options}

/-- The line asks for a report, the work is done, and one of the paths to report is no text. -/
def FailsLate (arguments : List Bytes) (fs : FileSystem) (options : Options) : Prop :=
  Options.parse arguments = .ok options ∧ options.json = true ∧
    ¬ (options.input.IsText ∧ options.output.IsText) ∧
    ∃ report, ((carveFile options.input options.output : StateM FileSystem _) fs).1.2 = .ok report

theorem failsLate_of_carveFile [Patterns] {report : Report}
    (parsed : Options.parse arguments = .ok options)
    (done : ((carveFile options.input options.output : StateM FileSystem _) fs).1.2 = .ok report)
    (failed : ((run arguments directives : StateM FileSystem _) fs).1.status ≠ 0) :
    FailsLate arguments fs options ∧
      ((run arguments directives : StateM FileSystem _) fs).1.status = 1 := by
  have concluded := conclusion_of_run directives fs parsed
  -- With all done, only the report can have failed.
  have unprinted : options.json = true ∧ ¬ report.toJson?.isSome := by
    by_contra printed
    refine failed (concluded.status_eq_zero_iff.mpr ⟨report, done, fun withJson => ?_⟩)
    by_contra noText
    exact printed ⟨withJson, noText⟩
  rw [toJson?_isSome_iff_of_carveFile done] at unprinted
  refine ⟨⟨parsed, unprinted.1, unprinted.2, report, done⟩, ?_⟩
  have notTwo : ((run arguments directives : StateM FileSystem _) fs).1.status ≠ 2 := by
    rw [Ne, concluded.status_eq_two_iff, done]
    simp
  have bound := concluded.status_le_two
  omega

/-- A failed run keeps all files, unless it fails late; then its status is 1, and it keeps all files
but the one that the output leads to. -/
theorem run_keeps_files [Patterns]
    (failed : ((run arguments directives : StateM FileSystem _) fs).1.status ≠ 0) :
    let outcome := ((run arguments directives : StateM FileSystem _) fs).1
    let after := ((run arguments directives : StateM FileSystem _) fs).2
    ((∀ options, ¬ FailsLate arguments fs options) → fs.KeepsFiles after) ∧
    ∀ options, FailsLate arguments fs options → outcome.status = 1 ∧
      ∀ loc content, fs.get? loc = some (.file content) →
        after.target? options.output ≠ some loc → after.get? loc = some (.file content) := by
  intro outcome after
  refine ⟨fun onTime => ?_, fun options late => ?_⟩
  · cases parsed : Options.parse arguments with
    | error stop =>
      have same : after = fs := congrArg Prod.snd (run_of_stop parsed)
      rw [same]
      exact ⟨fun _ _ isFile => isFile, fun _ _ present => present⟩
    | ok options =>
      have same : after = _ := congrArg Prod.snd (run_of_options parsed)
      have ending : Carving fs options.input options.output
          (_, ((carveFile options.input options.output : StateM FileSystem _) fs).1.2) after :=
        same ▸ carving fs options.input options.output
      cases result : ((carveFile options.input options.output : StateM FileSystem _) fs).1.2 with
      | error failure =>
        rw [result] at ending
        exact ending.adds_of_error.keepsFiles
      | ok report => exact absurd (failsLate_of_carveFile parsed result failed).1 (onTime options)
  · obtain ⟨parsed, -, -, report, done⟩ := id late
    refine ⟨(failsLate_of_carveFile parsed done failed).2, fun loc content isFile elsewhere => ?_⟩
    have same : after = _ := congrArg Prod.snd (run_of_options parsed)
    obtain ⟨_, _, _, -, -, -, delivered⟩ := carveFile_eq_ok done
    rw [same] at elsewhere ⊢
    exact delivered.keeps isFile elsewhere

/-- A working directory with a file `a` of one byte of padding and a magic, and a file whose name is
no text. -/
def unprintableSample : FileSystem :=
  let a : Name := ⟨Utf8.encode "a", valid_a⟩
  let noText : Name := ⟨[0xff], by decide⟩
  (fresh.add [session, temporary] a (.file (0 :: magic))).add [session, temporary] noText
    (.file [42])

/-- The output is written although its report cannot be printed and the run fails. -/
theorem run_overwrites_unprintable :
    let ended := (run [Utf8.encode "--json", Utf8.encode "a", [0xff]] none : StateM FileSystem _)
      unprintableSample
    let loc : Location := [⟨[0xff], by decide⟩, session, temporary]
    ended.1.status ≠ 0 ∧ unprintableSample.get? loc = some (.file [42]) ∧
      ended.2.get? loc = some (.file magic) := by
  decide +kernel

/-- A run that fails late keeps its input, and one that fails at its output keeps everything. -/
theorem run_keeps_files_of_sample :
    let late := (run [Utf8.encode "--json", Utf8.encode "a", [0xff]] none : StateM FileSystem _)
      unprintableSample
    let refused := (run [Utf8.encode "a", Utf8.encode "a/b"] none : StateM FileSystem _)
      unprintableSample
    late.1.status = 1 ∧
      late.2.get? [⟨Utf8.encode "a", by decide⟩, session, temporary] = some (.file (0 :: magic)) ∧
      refused.1.status ≠ 0 ∧ unprintableSample.KeepsFiles refused.2 := by
  have lateFails : ((run [Utf8.encode "--json", Utf8.encode "a", [0xff]] none :
      StateM FileSystem _) unprintableSample).1.status ≠ 0 := by
    decide +kernel
  have isLate : FailsLate [Utf8.encode "--json", Utf8.encode "a", [0xff]] unprintableSample
      ⟨.ofText "a", ⟨[0xff]⟩, true, 0⟩ :=
    ⟨by decide +kernel, rfl, by decide +kernel, ⟨.ofText "a", ⟨[0xff]⟩, .padded 1, 1, 4⟩, by cbv⟩
  obtain ⟨status, keeps⟩ := (run_keeps_files lateFails).2 _ isLate
  have refusedFails : ((run [Utf8.encode "a", Utf8.encode "a/b"] none :
      StateM FileSystem _) unprintableSample).1.status ≠ 0 := by
    decide +kernel
  have line : Options.parse [Utf8.encode "a", Utf8.encode "a/b"] =
      .ok ⟨.ofText "a", .ofText "a/b", false, 0⟩ := by
    decide +kernel
  have notLate (options : Options) :
      ¬ FailsLate [Utf8.encode "a", Utf8.encode "a/b"] unprintableSample options := by
    rintro ⟨parsed, withJson, -⟩
    cases line.symm.trans parsed
    cases withJson
  exact ⟨status, keeps _ _ (by decide +kernel) (by decide +kernel), refusedFails,
    (run_keeps_files refusedFails).1 notLate⟩

end Command

end ElfCarve
