import ElfCarve.Proofs.Carving.Delivery
import ElfCarve.Proofs.Command.Runs

/-!
# What the options for the log and the report leave alone

Two lines with the same operands do the same work.  How much they ask to log, and what the
directives say, shows in the records alone; whether they ask for a report shows in what is printed,
and in the status only where the report cannot be printed.
-/

namespace ElfCarve.Command

open FileSystem

/-- The message of the error that a run ended in, if it did not end well: its last one. -/
def Outcome.error? (outcome : Outcome) : Option String :=
  if outcome.status = 0 then none else outcome.messages.getLast?

namespace Conclusion

variable {json otherJson : Bool} {filter otherFilter : Filter} {events : List Event}
  {result : Except Failure Report} {outcome other : Outcome}

theorem error?_eq (concluded : Conclusion json filter events result outcome) :
    outcome.error? =
      if outcome.status = 0 then none else some (errorMessage (complaint result)) := by
  rw [Outcome.error?, concluded.messages_eq]
  split
  next => rfl
  next => rw [List.getLast?_append, List.getLast?_singleton, Option.some_or]

theorem messages_eq_append_error? (concluded : Conclusion json filter events result outcome) :
    outcome.messages = filter.records (events ++ lastEvents result) ++ outcome.error?.toList := by
  rw [concluded.messages_eq, concluded.error?_eq]
  split <;> rfl

theorem agrees (concluded : Conclusion json filter events result outcome)
    (alike : Conclusion json otherFilter events result other) :
    outcome.status = other.status ∧ outcome.output = other.output := by
  cases concluded with
  | failed => cases alike with
    | failed => exact ⟨rfl, rfl⟩
  | silent report noJson => cases alike with
    | silent => exact ⟨rfl, rfl⟩
    | printed _ _ withJson | unprinted _ withJson => cases noJson.symm.trans withJson
  | printed report value withJson isText => cases alike with
    | silent _ noJson => cases noJson.symm.trans withJson
    | printed _ _ _ isTextToo =>
      cases isText.symm.trans isTextToo
      exact ⟨rfl, rfl⟩
    | unprinted _ _ noText => cases isText.symm.trans noText
  | unprinted report withJson noText => cases alike with
    | silent _ noJson => cases noJson.symm.trans withJson
    | printed _ _ _ isText => cases noText.symm.trans isText
    | unprinted => exact ⟨rfl, rfl⟩

theorem status_eq (concluded : Conclusion json filter events result outcome)
    (alike : Conclusion otherJson otherFilter events result other)
    (printable : ∀ report, result = .ok report → report.toJson? ≠ none) :
    outcome.status = other.status := by
  cases concluded with
  | failed => cases alike with
    | failed => rfl
  | unprinted report _ noText => exact absurd noText (printable report rfl)
  | silent report | printed report => cases alike with
    | silent | printed => rfl
    | unprinted _ _ noText => exact absurd noText (printable report rfl)

end Conclusion

/-- Of two lines with the same operands, the files after the runs are the same.  If both ask for a
report or neither does, so are the status, what is printed and the error, and the messages are the
records of the same events, each run having those that its filter lets pass.  Otherwise the status
still is, unless the work is done and a path to report is no text.  With one text of directives for
both, how much the lines ask to log makes no difference at all. -/
theorem run_eq_aside_from_log [Patterns] {arguments others : List Bytes}
    {options otherOptions : Options}
    (parsed : Options.parse arguments = .ok options)
    (otherParsed : Options.parse others = .ok otherOptions)
    (sameInput : options.input = otherOptions.input)
    (sameOutput : options.output = otherOptions.output)
    (directives otherDirectives : Option String) (fs : FileSystem) :
    let ended := (run arguments directives : StateM FileSystem _) fs
    let otherEnded := (run others otherDirectives : StateM FileSystem _) fs
    let work := (carveFile options.input options.output : StateM FileSystem _) fs
    ended.2 = otherEnded.2 ∧
    (options.json = otherOptions.json →
      ended.1.status = otherEnded.1.status ∧ ended.1.output = otherEnded.1.output ∧
      ended.1.error? = otherEnded.1.error? ∧
      ∃ events,
        ended.1.messages = (Filter.effective directives options.verbosity).records events ++
          ended.1.error?.toList ∧
        otherEnded.1.messages =
          (Filter.effective otherDirectives otherOptions.verbosity).records events ++
            otherEnded.1.error?.toList) ∧
    (ended.1.status = otherEnded.1.status ∨
      (∃ report, work.1.2 = .ok report) ∧ ¬ (options.input.IsText ∧ options.output.IsText)) ∧
    (options.json = otherOptions.json → ∀ text, directives = some text →
      otherDirectives = some text → ended = otherEnded) := by
  intro ended otherEnded work
  -- Both runs conclude the same work, on the same events and with the same result.
  have concluded : Conclusion options.json (Filter.effective directives options.verbosity)
      work.1.1 work.1.2 ended.1 := conclusion_of_run directives fs parsed
  have alike : Conclusion otherOptions.json
      (Filter.effective otherDirectives otherOptions.verbosity) work.1.1 work.1.2 otherEnded.1 := by
    have concludedToo := conclusion_of_run otherDirectives fs otherParsed
    rw [← sameInput, ← sameOutput] at concludedToo
    exact concludedToo
  have ran : ended = _ := run_of_options parsed
  have otherRan : otherEnded = _ := run_of_options otherParsed
  rw [← sameInput, ← sameOutput] at otherRan
  refine ⟨?_, fun sameJson => ?_, ?_, ?_⟩
  · rw [ran, otherRan]
  · rw [← sameJson] at alike
    obtain ⟨status, output⟩ := concluded.agrees alike
    refine ⟨status, output, ?_, _, concluded.messages_eq_append_error?,
      alike.messages_eq_append_error?⟩
    rw [concluded.error?_eq, alike.error?_eq, status]
  · by_cases areText : options.input.IsText ∧ options.output.IsText
    · refine .inl (concluded.status_eq alike fun report done => ?_)
      exact Option.isSome_iff_ne_none.mp ((toJson?_isSome_iff_of_carveFile done).mpr areText)
    · cases done : work.1.2 with
      | ok report => exact .inr ⟨⟨report, rfl⟩, areText⟩
      | error failure =>
        refine .inl (concluded.status_eq alike fun report doneToo => ?_)
        cases done.symm.trans doneToo
  · rintro sameJson text rfl rfl
    rw [ran, otherRan, sameJson]
    rfl

/-- Flags for more to log, wherever they stand, show in the messages unless directives are given. -/
theorem run_eq_aside_from_log_in_place :
    let line := [Utf8.encode "a", Utf8.encode "b"]
    let louder := [Utf8.encode "-vv", Utf8.encode "a", Utf8.encode "--verbose", Utf8.encode "b"]
    let quiet := (run line none : StateM FileSystem _) linkedSample
    let loud := (run louder none : StateM FileSystem _) linkedSample
    quiet.2 = loud.2 ∧ quiet.1.status = loud.1.status ∧ quiet.1.error? = loud.1.error? ∧
      quiet.1.messages ≠ loud.1.messages ∧
      (run line (some "") : StateM FileSystem _) linkedSample =
        (run louder (some "") : StateM FileSystem _) linkedSample := by
  have parsed : Options.parse [Utf8.encode "a", Utf8.encode "b"] =
      .ok ⟨.ofText "a", .ofText "b", false, 0⟩ := by
    decide +kernel
  have louderParsed : Options.parse
      [Utf8.encode "-vv", Utf8.encode "a", Utf8.encode "--verbose", Utf8.encode "b"] =
      .ok ⟨.ofText "a", .ofText "b", false, 3⟩ := by
    decide +kernel
  obtain ⟨sameFiles, aside, -, -⟩ :=
    run_eq_aside_from_log parsed louderParsed rfl rfl none none linkedSample
  obtain ⟨-, -, -, same⟩ :=
    run_eq_aside_from_log parsed louderParsed rfl rfl (some "") (some "") linkedSample
  obtain ⟨status, -, error, -⟩ := aside rfl
  exact ⟨sameFiles, status, error, by decide +kernel, same rfl "" rfl rfl⟩

end ElfCarve.Command
