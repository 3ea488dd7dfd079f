import ElfCarve.Command.Outcome
import ElfCarve.Proofs.Carving.Runs
import ElfCarve.Proofs.Command.Options
import ElfCarve.Proofs.Log.Filter
import ElfCarve.Proofs.Report

/-!
# The ways a run of the command ends

A run stops at the command line or does its work, and it ends in one of a few ways after that.

* `run_of_stop` and `run_of_options` say what a run computes.
* `Conclusion` lists the ways in which the work is concluded, and `conclusion` says that there are
  no others.
-/

namespace ElfCarve.Command

variable {arguments : List Bytes} {directives : Option String} {fs : FileSystem} {stop : Stop}
  {options : Options} {json : Bool} {filter : Filter} {events : List Event}
  {result : Except Failure Report}

theorem run_of_stop [Patterns] (parsed : Options.parse arguments = .error stop) :
    (run arguments directives : StateM FileSystem _) fs = (stop.outcome, fs) := by
  rw [run, parsed]
  rfl

theorem run_of_options [Patterns] (parsed : Options.parse arguments = .ok options) :
    (run arguments directives : StateM FileSystem _) fs =
      let ended := (carveFile options.input options.output : StateM FileSystem _) fs
      (workOutcome options.json (Filter.effective directives options.verbosity) ended.1.1 ended.1.2,
        ended.2) := by
  rw [run, parsed]
  rfl

theorem toJson?_isSome_iff_of_carveFile {report : Report}
    (ended : ((carveFile options.input options.output : StateM FileSystem _) fs).1.2 = .ok report) :
    report.toJson?.isSome ↔ options.input.IsText ∧ options.output.IsText := by
  obtain ⟨_, _, _, -, -, rfl, -⟩ := carveFile_eq_ok ended
  exact Report.toJson?_isSome_iff

theorem exitStatus_eq_refused_iff {failure : Failure} :
    failure.exitStatus = 2 ↔ ∃ path, failure = .noInput path ∨ failure = .noImage path := by
  cases failure <;> simp [Failure.exitStatus, Failure.refused, Failure.troubled]

theorem exitStatus_cases (failure : Failure) :
    failure.exitStatus = 1 ∨ failure.exitStatus = 2 := by
  cases failure <;> simp [Failure.exitStatus, Failure.refused, Failure.troubled]

def lastEvents : Except Failure Report → List Event
  | .ok report => [.wrote report.written report.output]
  | .error _ => []

/-- What a run complains of if it does not end well: that the work failed, or else that its report
cannot be printed. -/
def complaint : Except Failure Report → String
  | .ok _ => "serializing report: " ++ Report.notTextMessage
  | .error failure => failure.chain

theorem complaint_ok (report : Report) :
    complaint (.ok report) = "serializing report: " ++ Report.notTextMessage :=
  rfl

theorem complaint_error (failure : Failure) : complaint (.error failure) = failure.chain :=
  rfl

inductive Conclusion (json : Bool) (filter : Filter) (events : List Event) :
    Except Failure Report → Outcome → Prop
  | failed (failure : Failure) : Conclusion json filter events (.error failure)
      ⟨failure.exitStatus, "", filter.records events ++ [errorMessage failure.chain]⟩
  | silent (report : Report) (noJson : json = false) : Conclusion json filter events (.ok report)
      ⟨0, "", filter.records (events ++ [.wrote report.written report.output])⟩
  | printed (report : Report) (value : Json) (withJson : json = true)
      (isText : report.toJson? = some value) : Conclusion json filter events (.ok report)
      ⟨0, value.pretty ++ "\n", filter.records (events ++ [.wrote report.written report.output])⟩
  | unprinted (report : Report) (withJson : json = true) (noText : report.toJson? = none) :
      Conclusion json filter events (.ok report)
      ⟨1, "", filter.records (events ++ [.wrote report.written report.output]) ++
        [errorMessage ("serializing report: " ++ Report.notTextMessage)]⟩

theorem conclusion (json : Bool) (filter : Filter) (events : List Event)
    (result : Except Failure Report) :
    Conclusion json filter events result (workOutcome json filter events result) := by
  cases result with
  | error failure => exact .failed failure
  | ok report =>
    rw [workOutcome, reportOutcome]
    cases json with
    | false => exact .silent report rfl
    | true =>
      cases written : report.toJson? with
      | none => exact .unprinted report rfl written
      | some value => exact .printed report value rfl written

theorem conclusion_of_run [Patterns] (directives : Option String) (fs : FileSystem)
    (parsed : Options.parse arguments = .ok options) :
    let work := (carveFile options.input options.output : StateM FileSystem _) fs
    Conclusion options.json (Filter.effective directives options.verbosity) work.1.1 work.1.2
      ((run arguments directives : StateM FileSystem _) fs).1 := by
  rw [run_of_options parsed]
  exact conclusion _ _ _ _

/-! ## What a conclusion says -/

namespace Conclusion

variable {outcome : Outcome} (concluded : Conclusion json filter events result outcome)

include concluded

theorem status_eq_zero_iff : outcome.status = 0 ↔
    ∃ report, result = .ok report ∧ (json = true → report.toJson?.isSome) := by
  cases concluded with
  | failed failure =>
    have status := exitStatus_cases failure
    refine iff_of_false (by dsimp only; omega) ?_
    simp
  | silent report noJson => simp [noJson]
  | printed report value withJson isText => simp [isText]
  | unprinted report withJson noText => simp [withJson, noText]

theorem status_eq_two_iff : outcome.status = 2 ↔
    ∃ path, result = .error (.noInput path) ∨ result = .error (.noImage path) := by
  cases concluded with
  | failed failure => simp [exitStatus_eq_refused_iff]
  | silent | printed | unprinted => simp

theorem status_le_two : outcome.status ≤ 2 := by
  cases concluded with
  | failed failure =>
    have status := exitStatus_cases failure
    dsimp only
    omega
  | silent | printed | unprinted => simp

theorem output_of_json (withJson : json = true) (ended : outcome.status = 0) :
    ∃ report value, result = .ok report ∧ report.toJson? = some value ∧
      outcome.output = value.pretty ++ "\n" := by
  cases concluded with
  | failed failure =>
    have status := exitStatus_cases failure
    dsimp only at ended
    omega
  | silent report noJson => exact absurd (withJson.symm.trans noJson) (by decide)
  | printed report value _ isText => exact ⟨report, value, rfl, isText, rfl⟩
  | unprinted => cases ended

theorem output_eq_empty (nothing : json = false ∨ outcome.status ≠ 0) : outcome.output = "" := by
  cases concluded with
  | failed | silent | unprinted => rfl
  | printed report value withJson isText => simp [withJson] at nothing

theorem messages_eq : outcome.messages = filter.records (events ++ lastEvents result) ++
    if outcome.status = 0 then [] else [errorMessage (complaint result)] := by
  cases concluded with
  | failed failure =>
    have status : failure.exitStatus ≠ 0 := by
      have status := exitStatus_cases failure
      omega
    simp only [lastEvents, complaint_error, List.append_nil, if_neg status]
  | silent | printed => simp only [lastEvents, if_pos, List.append_nil]
  | unprinted =>
    rw [complaint_ok, if_neg Nat.one_ne_zero]
    rfl

end Conclusion

end ElfCarve.Command
