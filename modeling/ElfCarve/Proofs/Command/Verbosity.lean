import ElfCarve.Proofs.Command.Grammar
import ElfCarve.Proofs.Command.Interference
import ElfCarve.Proofs.Command.Messages

/-!
# Asking for more to be logged

A line that asks for more to be logged than another, and else for the same, prints further records
among the messages of the other.  Only the first two of its flags count.

* `Line.loudness` is how much a line asks for, without any bound.
* `messages_sublist` and `sublist_messageLines_iff_keepsApart` compare two runs by what they
  conclude, and `run_louder` says it of the runs themselves.
-/

namespace ElfCarve

open FileSystem

variable {fs : FileSystem} {input output : Path}

theorem layoutEvents_eq (input : Path) (layout : Layout) (padding : Bytes) :
    ∃ finding more, layoutEvents input layout padding = finding :: more ∧
      finding.level = .info ∧ finding.path = input ∧
      ∀ event ∈ more, event.level = .debug ∧ event.path = input := by
  have further (event : Event) (member : event ∈ [Event.filledPadding input layout.offset]) :
      event.level = .debug ∧ event.path = input := by
    rw [List.mem_singleton.mp member]
    exact ⟨rfl, rfl⟩
  have nothing (event : Event) (member : event ∈ []) : event.level = .debug ∧ event.path = input :=
    absurd member List.not_mem_nil
  unfold layoutEvents
  cases layout with
  | bare =>
    dsimp only
    split
    · exact ⟨.bareInput input, _, rfl, rfl, rfl, further⟩
    · exact ⟨.bareInput input, [], rfl, rfl, rfl, nothing⟩
  | padded offset =>
    dsimp only
    split
    · exact ⟨.paddedInput padding.length input, _, rfl, rfl, rfl, further⟩
    · exact ⟨.paddedInput padding.length input, [], rfl, rfl, rfl, nothing⟩

/-- What a carving tells, by how far it comes. -/
inductive Tells (input : Path) : List Event → Except Failure Report → Prop where
  | noInput (failure : Failure) : Tells input [] (.error failure)
  /-- That the input was read, and nothing more of one without an image. -/
  | noImage (count : Nat) (failure : Failure) : Tells input [.read count input] (.error failure)
  | found (count : Nat) {finding : Event} {further : List Event}
      (result : Except Failure Report) (level : finding.level = .info)
      (path : finding.path = input)
      (others : ∀ event ∈ further, event.level = .debug ∧ event.path = input) :
      Tells input (.read count input :: finding :: further) result

theorem tells_carveFile (fs : FileSystem) (input output : Path) :
    Tells input ((carveFile input output : StateM FileSystem _) fs).1.1
      ((carveFile input output : StateM FileSystem _) fs).1.2 := by
  have found (data : Bytes) (layout : Layout) (result : Except Failure Report) :
      Tells input (findings input layout data) result := by
    obtain ⟨finding, further, split, level, path, others⟩ :=
      layoutEvents_eq input layout (padding layout data)
    rw [findings, split]
    exact .found data.length result level path others
  have ending := carving fs input output
  generalize ((carveFile input output : StateM FileSystem _) fs) = work at ending
  obtain ⟨⟨events, result⟩, after⟩ := work
  cases ending with
  | noInput => exact .noInput _
  | noImage => exact .noImage _ _
  | refused | done => exact found _ _ _

theorem Tells.path_eq {events : List Event} {result : Except Failure Report}
    (tells : Tells input events result) : ∀ event ∈ events, event.path = input := by
  cases tells with
  | noInput => exact fun _ member => absurd member List.not_mem_nil
  | noImage => exact List.forall_mem_singleton.mpr rfl
  | found count result level path others =>
    rw [List.forall_mem_cons, List.forall_mem_cons]
    exact ⟨rfl, path, fun event member => (others event member).2⟩

namespace Command

/-- How often a line asks for more to be logged: with each letter of its clusters, and with each
long option. -/
def Line.loudness (arguments : List Bytes) : Nat :=
  ((Line.options arguments).filter (IsCluster ·)).flatten.count loud +
    (Line.options arguments).count verboseOption

theorem Line.verbosity_of_parse {arguments : List Bytes} {options : Options}
    (parsed : Options.parse arguments = .ok options) :
    options.verbosity = min verbosityLimit (Line.loudness arguments) := by
  have accepts := (Progress.run_eq_ok_iff (Nat.zero_le _) (Nat.zero_le _)).mp parsed
  exact (accepts_ofArguments_iff.mp accepts).verbosity

/-! ## Two runs compared -/

namespace Conclusion

variable {json : Bool} {lesser greater : Nat} {events : List Event}
  {result : Except Failure Report} {quiet loud : Outcome}

/-- Both runs print records of the same events, and the same error behind them, if any.  There is
one if the work failed. -/
theorem exists_error (concluded : Conclusion json (Filter.ofVerbosity lesser) events result quiet)
    (alike : Conclusion json (Filter.ofVerbosity greater) events result loud) :
    ∃ error, (error = [] ∨ ∃ text, error = [errorMessage text]) ∧
      (∀ failure, result = .error failure → error ≠ []) ∧
      quiet.messages =
        (Filter.ofVerbosity lesser).records (events ++ lastEvents result) ++ error ∧
      loud.messages =
        (Filter.ofVerbosity greater).records (events ++ lastEvents result) ++ error := by
  obtain ⟨sameStatus, -⟩ := concluded.agrees alike
  refine ⟨_, ?_, ?_, concluded.messages_eq, ?_⟩
  · split_ifs
    · exact .inl rfl
    · exact .inr ⟨_, rfl⟩
  · rintro failure rfl
    have failed : quiet.status ≠ 0 := by
      rw [Ne, concluded.status_eq_zero_iff]
      simp
    rw [if_neg failed]
    exact List.cons_ne_nil _ _
  · rw [sameStatus]
    exact alike.messages_eq

theorem messages_sublist
    (concluded : Conclusion json (Filter.ofVerbosity lesser) events result quiet)
    (alike : Conclusion json (Filter.ofVerbosity greater) events result loud)
    (more : lesser ≤ greater) : quiet.messages.Sublist loud.messages := by
  obtain ⟨error, -, -, quietly, loudly⟩ := concluded.exists_error alike
  rw [quietly, loudly]
  exact (Filter.records_sublist more _).append (List.Sublist.refl error)

end Conclusion

theorem level_of_mem_lastEvents {result : Except Failure Report} :
    ∀ event ∈ lastEvents result, event.level = .info := by
  cases result with
  | ok report => simp [lastEvents, Event.level]
  | error => simp [lastEvents]

theorem filter_info_of_finding {count : Nat} {finding : Event} {more : List Event}
    {result : Except Failure Report} (level : finding.level = .info)
    (others : ∀ event ∈ more, event.level = .debug) :
    (.read count input :: finding :: (more ++ lastEvents result)).filter (·.level = .info) =
      finding :: lastEvents result := by
  have noneOfMore : more.filter (·.level = .info) = [] := by
    rw [List.filter_eq_nil_iff]
    intro event member
    simp [others event member]
  have allOfLast : (lastEvents result).filter (·.level = .info) = lastEvents result := by
    rw [List.filter_eq_self]
    intro event member
    simp [level_of_mem_lastEvents event member]
  rw [List.filter_cons_of_neg (by simp [Event.level]),
    List.filter_cons_of_pos (by simpa using level), List.filter_append, noneOfMore, allOfLast,
    List.nil_append]

theorem record_notMem_lastMessages {event : Event} {result : Except Failure Report}
    {error : List String} (level : event.level = .debug)
    (isError : error = [] ∨ ∃ text, error = [errorMessage text]) :
    event.record ∉ (lastEvents result).map Event.record ++ error := by
  rw [List.mem_append, List.mem_map, not_or]
  constructor
  · rintro ⟨last, member, same⟩
    refine record_ne_of_level ?_ same
    rw [level_of_mem_lastEvents last member, level]
    exact nofun
  · rcases isError with rfl | ⟨text, rfl⟩
    · exact List.not_mem_nil
    · rw [List.mem_singleton]
      exact record_ne_errorMessage event text

theorem printed_lastMessages_ne_nil {result : Except Failure Report} {error : List String}
    (isError : error = [] ∨ ∃ text, error = [errorMessage text])
    (failed : ∀ failure, result = .error failure → error ≠ []) :
    printed ((lastEvents result).map Event.record ++ error) ≠ [] := by
  cases result with
  | ok report =>
    exact List.append_ne_nil_of_left_ne_nil (Event.record_ne_nil _) _
  | error failure =>
    rcases isError with none | ⟨text, rfl⟩
    · exact absurd none (failed failure rfl)
    · exact printed_error_ne_nil text

/-- The lines of the quieter of two runs are among those of the louder one if and only if the
records that only the louder one prints do not run into its messages. -/
theorem sublist_messageLines_iff_keepsApart {json : Bool} {lesser greater : Nat}
    {quiet loud : Outcome} (more : lesser ≤ greater)
    (concluded : Conclusion json (Filter.ofVerbosity lesser)
      ((carveFile input output : StateM FileSystem _) fs).1.1
      ((carveFile input output : StateM FileSystem _) fs).1.2 quiet)
    (alike : Conclusion json (Filter.ofVerbosity greater)
      ((carveFile input output : StateM FileSystem _) fs).1.1
      ((carveFile input output : StateM FileSystem _) fs).1.2 loud) :
    quiet.messageLines.Sublist loud.messageLines ↔ KeepsApart quiet.messages loud.messages := by
  obtain ⟨error, isError, failed, quietly, loudly⟩ := concluded.exists_error alike
  have tells := tells_carveFile fs input output
  generalize ((carveFile input output : StateM FileSystem _) fs).1.1 = events,
    ((carveFile input output : StateM FileSystem _) fs).1.2 = result at *
  rw [sublist_messageLines_iff, quietly, loudly]
  by_cases same : min lesser 2 = min greater 2
  · rw [Filter.ofVerbosity_congr same]
    exact iff_of_true (List.Sublist.refl _) (keepsApart_refl _)
  -- The quieter run prints no records, or those of information only, and then the louder all.
  obtain rfl | ⟨rfl, much⟩ : lesser = 0 ∨ lesser = 1 ∧ 2 ≤ greater := by omega
  · rw [Filter.records_ofVerbosity_zero]
    exact sublist_printed_iff_of_error isError _
  rw [Filter.records_ofVerbosity_one, Filter.records_ofVerbosity_of_two_le much]
  cases tells with
  | noInput | noImage => exact sublist_printed_iff_of_error isError _
  | found count result level path others =>
    rw [List.cons_append, List.cons_append, filter_info_of_finding level fun event member =>
      (others event member).1, ← List.cons_append, ← List.cons_append, List.map_append,
      List.append_assoc]
    refine sublist_printed_iff_of_finding ?_ ?_ ?_ ?_
    · rw [level]
      exact nofun
    · rw [List.forall_mem_cons]
      exact ⟨path, fun event member => (others event member).2⟩
    · exact record_notMem_lastMessages rfl isError
    · exact printed_lastMessages_ne_nil isError failed

theorem path_of_mem_events {event : Event}
    (member : event ∈ ((carveFile input output : StateM FileSystem _) fs).1.1 ++
      lastEvents ((carveFile input output : StateM FileSystem _) fs).1.2) :
    event.path = input ∨ event.path = output := by
  rcases List.mem_append.mp member with isEvent | isLast
  · exact .inl ((tells_carveFile fs input output).path_eq event isEvent)
  · right
    cases result : ((carveFile input output : StateM FileSystem _) fs).1.2 with
    | error failure =>
      rw [result] at isLast
      exact absurd isLast List.not_mem_nil
    | ok report =>
      obtain ⟨_, _, _, -, -, rfl, -⟩ := carveFile_eq_ok result
      rw [result] at isLast
      rw [List.mem_singleton.mp isLast]
      rfl

theorem keepsApart_of_no_escape {json : Bool} {lesser greater : Nat} {quiet loud : Outcome}
    (concluded : Conclusion json (Filter.ofVerbosity lesser)
      ((carveFile input output : StateM FileSystem _) fs).1.1
      ((carveFile input output : StateM FileSystem _) fs).1.2 quiet)
    (alike : Conclusion json (Filter.ofVerbosity greater)
      ((carveFile input output : StateM FileSystem _) fs).1.1
      ((carveFile input output : StateM FileSystem _) fs).1.2 loud)
    (plainInput : '\x1b' ∉ input.display.toList) (plainOutput : '\x1b' ∉ output.display.toList) :
    KeepsApart quiet.messages loud.messages := by
  obtain ⟨error, -, -, quietly, loudly⟩ := concluded.exists_error alike
  rw [quietly, loudly]
  refine keepsApart_of_letsLineEnd (fun event passes => ?_) fun _ => List.mem_append_right _
  rcases path_of_mem_events (List.mem_filter.mp passes).1 with isInput | isOutput
  · rw [isInput]
    exact Path.letsLineEnd_of_no_escape plainInput
  · rw [isOutput]
    exact Path.letsLineEnd_of_no_escape plainOutput

/-- Of two lines with the same operands, both with a report or both without, and with nothing to set
a filter, let one ask for at least as much to be logged as the other.  Then the messages of the
other are among its messages, in their order.  So are the lines, if and only if the records that
only it prints do not run into those messages; and that is so where no path holds an escape
character.  Beyond two, more flags make no difference at all, however many they are. -/
theorem run_louder [Patterns] {arguments louder : List Bytes} {options louderOptions : Options}
    (parsed : Options.parse arguments = .ok options)
    (louderParsed : Options.parse louder = .ok louderOptions)
    (sameInput : louderOptions.input = options.input)
    (sameOutput : louderOptions.output = options.output)
    (sameJson : louderOptions.json = options.json)
    (more : Line.loudness arguments ≤ Line.loudness louder) (fs : FileSystem) :
    let quiet := ((run arguments none : StateM FileSystem _) fs).1
    let loud := ((run louder none : StateM FileSystem _) fs).1
    quiet.messages.Sublist loud.messages ∧
    (quiet.messageLines.Sublist loud.messageLines ↔ KeepsApart quiet.messages loud.messages) ∧
    ('\x1b' ∉ options.input.display.toList → '\x1b' ∉ options.output.display.toList →
      quiet.messageLines.Sublist loud.messageLines) ∧
    (min (Line.loudness arguments) 2 = min (Line.loudness louder) 2 →
      (run arguments none : StateM FileSystem _) fs =
        (run louder none : StateM FileSystem _) fs) := by
  intro quiet loud
  have concluded := conclusion_of_run none fs parsed
  have alike := conclusion_of_run none fs louderParsed
  rw [sameInput, sameOutput, sameJson] at alike
  have verbosity := Line.verbosity_of_parse parsed
  have louderVerbosity := Line.verbosity_of_parse louderParsed
  have ordered : options.verbosity ≤ louderOptions.verbosity := by
    omega
  have lines := sublist_messageLines_iff_keepsApart ordered concluded alike
  refine ⟨concluded.messages_sublist alike ordered, lines, fun plainInput plainOutput => ?_,
    fun same => ?_⟩
  · exact lines.mpr (keepsApart_of_no_escape concluded alike plainInput plainOutput)
  · have sameFilter : Filter.effective none options.verbosity =
        Filter.effective none louderOptions.verbosity := by
      refine Filter.ofVerbosity_congr ?_
      rw [verbosityLimit] at verbosity louderVerbosity
      omega
    rw [run_of_options parsed, run_of_options louderParsed, sameInput, sameOutput, sameJson,
      sameFilter]

/-- Far beyond what a byte can count, flags change no more than two of them do. -/
theorem run_louder_beyond_255 :
    let a := Utf8.encode "a"
    let b := Utf8.encode "b"
    let line := [Utf8.encode "-v", a, b]
    let twice := [Utf8.encode "-v", a, Utf8.encode "-v", b]
    let louder := [Utf8.encode "--verbose", a, Bytes.dash :: List.replicate 255 loud, b]
    let ended := (run line none : StateM FileSystem _) linkedSample
    let louderEnded := (run louder none : StateM FileSystem _) linkedSample
    Line.loudness louder = 256 ∧
      ended.1.messageLines.Sublist louderEnded.1.messageLines ∧
      ended.1.messageLines ≠ louderEnded.1.messageLines ∧
      (run twice none : StateM FileSystem _) linkedSample = louderEnded := by
  intro a b line twice louder ended louderEnded
  have parsed : Options.parse line = .ok ⟨.ofText "a", .ofText "b", false, 1⟩ := by
    decide +kernel
  have twiceParsed : Options.parse twice = .ok ⟨.ofText "a", .ofText "b", false, 2⟩ := by
    decide +kernel
  have louderParsed : Options.parse louder = .ok ⟨.ofText "a", .ofText "b", false, 255⟩ := by
    decide +kernel
  have once : Line.loudness line = 1 := by decide +kernel
  have again : Line.loudness twice = 2 := by decide +kernel
  have much : Line.loudness louder = 256 := by decide +kernel
  obtain ⟨-, -, ofPlain, -⟩ :=
    run_louder parsed louderParsed rfl rfl rfl (by omega) linkedSample
  obtain ⟨-, -, -, same⟩ :=
    run_louder twiceParsed louderParsed rfl rfl rfl (by omega) linkedSample
  exact ⟨much, ofPlain (by decide +kernel) (by decide +kernel), by decide +kernel,
    same (by omega)⟩

theorem valid_open : Name.Valid [0x61, 0x1b, 0x5d] := by
  decide

/-- A working directory with one file, a bare image, whose name leaves a command to the terminal
unfinished. -/
def openSample : FileSystem :=
  fresh.add [session, temporary] ⟨[0x61, 0x1b, 0x5d], valid_open⟩ (.file magic)

/-- The record that only the louder run prints takes in the line of the error. -/
theorem run_louder_joins_lines :
    let line : List Bytes := [[0x61, 0x1b, 0x5d], Utf8.encode "."]
    let louder : List Bytes := [Utf8.encode "-v", [0x61, 0x1b, 0x5d], Utf8.encode "."]
    let quiet := ((run line none : StateM FileSystem _) openSample).1
    let loud := ((run louder none : StateM FileSystem _) openSample).1
    Options.parse line = .ok ⟨⟨[0x61, 0x1b, 0x5d]⟩, .ofText ".", false, 0⟩ ∧
    Options.parse louder = .ok ⟨⟨[0x61, 0x1b, 0x5d]⟩, .ofText ".", false, 1⟩ ∧
    Line.loudness line ≤ Line.loudness louder ∧
    quiet.messageLines = ["error: cannot access .: Is a directory (os error 21)"] ∧
    loud.messageLines =
      ["[INFO  unpad_core::unpack] aerror: cannot access .: Is a directory (os error 21)"] ∧
    ¬ quiet.messageLines.Sublist loud.messageLines := by
  decide +kernel

end Command

end ElfCarve
