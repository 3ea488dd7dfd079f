import ElfCarve.Proofs.Carving.Delivery
import ElfCarve.Proofs.Command.Runs

/-!
# What a run of the command shows of its work

The status, the two streams and the files after a run are determined by what the line asks for and
by what the work comes to.  The report and the log are told of the work and take no part in it.  All
of that holds for the patterns of any language in a filter for the log.
-/

namespace ElfCarve.Command

open FileSystem

variable {arguments : List Bytes} {directives : Option String} {fs : FileSystem} {stop : Stop}

theorem status_outcome_eq_zero_iff : stop.outcome.status = 0 ↔ stop = .help ∨ stop = .version := by
  cases stop <;> simp [Stop.outcome, Failure.refused]

theorem status_outcome_eq_two_iff : stop.outcome.status = 2 ↔ ∃ error, stop = .misuse error := by
  cases stop <;> simp [Stop.outcome, Failure.refused]

/-- A run exits with 0 if it only helps, or if the work is done and its report, where one is asked
for, can be printed; with 2 if the line is refused or the input is; and with 1 otherwise.  The work
is that of carving the one operand to the other.  What is printed is the report, and the messages
are the events that the filter lets pass, with one error behind them unless all is well.  With
nothing to set a filter, that error is all. -/
theorem run_refines_carveFile [Patterns] (arguments : List Bytes) (directives : Option String)
    (fs : FileSystem) :
    let outcome := ((run arguments directives : StateM FileSystem _) fs).1
    let after := ((run arguments directives : StateM FileSystem _) fs).2
    let work (options : Options) :=
      (carveFile options.input options.output : StateM FileSystem _) fs
    (outcome.status = 0 ↔
      Options.parse arguments = .error .help ∨ Options.parse arguments = .error .version ∨
      ∃ options report, Options.parse arguments = .ok options ∧ (work options).1.2 = .ok report ∧
        (options.json = true → options.input.IsText ∧ options.output.IsText)) ∧
    (outcome.status = 2 ↔
      (∃ error, Options.parse arguments = .error (.misuse error)) ∨
      ∃ options path, Options.parse arguments = .ok options ∧
        ((work options).1.2 = .error (.noInput path) ∨
          (work options).1.2 = .error (.noImage path))) ∧
    (outcome.status ≠ 0 → outcome.status ≠ 2 → outcome.status = 1) ∧
    ∀ options, Options.parse arguments = .ok options →
      let result := (work options).1.2
      let events := (work options).1.1 ++ lastEvents result
      let filter := Filter.effective directives options.verbosity
      let error := if outcome.status = 0 then [] else [errorMessage (complaint result)]
      after = (work options).2 ∧
      (options.json = true → outcome.status = 0 →
        ∃ report value, result = .ok report ∧ report.toJson? = some value ∧
          outcome.output = value.pretty ++ "\n") ∧
      (options.json = false ∨ outcome.status ≠ 0 → outcome.output = "") ∧
      outcome.messages = (events.filter filter.admits).map Event.record ++ error ∧
      (directives = none → .flag .verbose ∉ Token.ofArguments arguments →
        outcome.messages = error) := by
  intro outcome after work
  cases parsed : Options.parse arguments with
  | error stop =>
    have ran : outcome = stop.outcome := congrArg Prod.fst (run_of_stop parsed)
    refine ⟨?_, ?_, ?_, nofun⟩
    · rw [ran, status_outcome_eq_zero_iff]
      simp
    · rw [ran, status_outcome_eq_two_iff]
      simp
    · rw [ran]
      cases stop <;> simp [Stop.outcome, Failure.refused]
  | ok options =>
    have same : after = (work options).2 := congrArg Prod.snd (run_of_options parsed)
    have concluded : Conclusion options.json (Filter.effective directives options.verbosity)
        (work options).1.1 (work options).1.2 outcome := conclusion_of_run directives fs parsed
    refine ⟨?_, ?_, ?_, ?_⟩
    · rw [concluded.status_eq_zero_iff]
      constructor
      · rintro ⟨report, done, printable⟩
        refine .inr (.inr ⟨options, report, rfl, done, fun withJson => ?_⟩)
        exact (toJson?_isSome_iff_of_carveFile done).mp (printable withJson)
      · rintro (help | version | ⟨_, report, ⟨rfl⟩, done, areText⟩)
        · cases help
        · cases version
        · refine ⟨report, done, fun withJson => ?_⟩
          exact (toJson?_isSome_iff_of_carveFile done).mpr (areText withJson)
    · rw [concluded.status_eq_two_iff]
      simp
    · have bound := concluded.status_le_two
      omega
    · rintro _ ⟨rfl⟩
      refine ⟨same, concluded.output_of_json, concluded.output_eq_empty, concluded.messages_eq, ?_⟩
      rintro rfl quiet
      have silent : (Filter.effective none options.verbosity).records
          ((work options).1.1 ++ lastEvents (work options).1.2) = [] := by
        rw [Options.verbosity_of_parse parsed quiet]
        exact Filter.records_ofVerbosity_zero
      rw [concluded.messages_eq, silent, List.nil_append]

/-- A pattern behind the directives picks the record of the written file, and no other one. -/
theorem run_refines_carveFile_by_pattern :
    let line := [Utf8.encode "a", Utf8.encode "b"]
    let outcome := ((run line (some "info") : StateM FileSystem _) linkedSample).1
    let picked := ((run line (some "info/Wrote") : StateM FileSystem _) linkedSample).1
    outcome.messages =
        [(Event.paddedInput 1 (.ofText "a")).record, (Event.wrote 4 (.ofText "b")).record] ∧
      picked.status = 0 ∧ picked.output = "" ∧
      picked.messages = [(Event.wrote 4 (.ofText "b")).record] := by
  intro line outcome picked
  let asked : Options := ⟨.ofText "a", .ofText "b", false, 0⟩
  have parsed : Options.parse line = .ok asked := by decide +kernel
  have done : ((carveFile asked.input asked.output : StateM FileSystem _) linkedSample).1 =
      ([.read 5 (.ofText "a"), .paddedInput 1 (.ofText "a")],
        .ok ⟨.ofText "a", .ofText "b", .padded 1, 1, 4⟩) := by
    cbv
  obtain ⟨zero, -, -, tells⟩ := run_refines_carveFile line (some "info") linkedSample
  obtain ⟨pickedZero, -, -, tellsPicked⟩ :=
    run_refines_carveFile line (some "info/Wrote") linkedSample
  have noReport (withJson : asked.json = true) : asked.input.IsText ∧ asked.output.IsText := by
    cases withJson
  have ended : outcome.status = 0 :=
    zero.mpr (.inr (.inr ⟨asked, _, parsed, congrArg Prod.snd done, noReport⟩))
  have pickedEnded : picked.status = 0 :=
    pickedZero.mpr (.inr (.inr ⟨asked, _, parsed, congrArg Prod.snd done, noReport⟩))
  obtain ⟨-, -, -, messages, -⟩ := tells asked parsed
  obtain ⟨-, -, silent, pickedMessages, -⟩ := tellsPicked asked parsed
  rw [done, if_pos ended] at messages
  rw [done, if_pos pickedEnded] at pickedMessages
  exact ⟨messages.trans (by decide +kernel), pickedEnded, silent (.inl rfl),
    pickedMessages.trans (by decide +kernel)⟩
end ElfCarve.Command
