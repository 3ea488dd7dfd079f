import ElfCarve.Log.Event
import ElfCarve.Proofs.Text.Lines
import ElfCarve.Proofs.Text.Terminal

/-!
# What is shown of a record

A record names a path, and the characters around the path are printable.  So whether the record ends
its line is up to the path: a string that the path leaves unfinished hides the line end.  The line
ends of the path itself are followed by blanks, so no line of a record begins like another record.

* `toList_record` takes a record apart.
* `endsLine_record_iff` says when its last line is finished, and `forall_linesOf_record` how its
  lines begin.
-/

namespace ElfCarve

open Terminal

namespace Event

variable {text : List Char} {c : Char}

/-! ## Indentation -/

def indented (text : List Char) : List Char :=
  text.flatMap fun c => if c = '\n' then ['\n', ' ', ' ', ' ', ' '] else [c]

theorem toList_indentLines (text : String) : (indentLines text).toList = indented text.toList :=
  String.toList_ofList

theorem indented_append (text more : List Char) :
    indented (text ++ more) = indented text ++ indented more :=
  List.flatMap_append

theorem indented_newline (text : List Char) :
    indented ('\n' :: text) = '\n' :: ' ' :: ' ' :: ' ' :: ' ' :: indented text :=
  rfl

theorem indented_cons (goesOn : c ≠ '\n') (text : List Char) :
    indented (c :: text) = c :: indented text := by
  rw [indented, List.flatMap_cons, if_neg goesOn]
  rfl

theorem indented_of_notMem (whole : '\n' ∉ text) : indented text = text := by
  induction text with
  | nil => rfl
  | cons c text ih =>
    rw [List.mem_cons, not_or] at whole
    rw [indented_cons (Ne.symm whole.1), ih whole.2]

theorem isIndented_visibleFrom_cons (goesOn : c ≠ '\n')
    (indented : ∀ state, IsIndented (visibleFrom state text)) (state : State) :
    IsIndented (visibleFrom state (c :: text)) := by
  cases shown : state.shows c with
  | true =>
    rw [visibleFrom_cons_of_shows shown]
    exact ⟨fun isEnd => absurd isEnd goesOn, indented _⟩
  | false =>
    rw [visibleFrom_cons_of_not_shows shown]
    exact indented _

/-- Behind a line end that is shown, at least one of the blanks is shown as well. -/
theorem isIndented_visibleFrom (text : List Char) (state : State) :
    IsIndented (visibleFrom state (indented text)) := by
  induction text generalizing state with
  | nil => trivial
  | cons c text ih =>
    by_cases isEnd : c = '\n'
    · have blank {text : List Char} (indented : ∀ state, IsIndented (visibleFrom state text)) :
          ∀ state, IsIndented (visibleFrom state (' ' :: text)) :=
        isIndented_visibleFrom_cons (by decide) indented
      have behind := blank (blank (blank ih))
      rw [isEnd, indented_newline]
      cases shown : state.shows '\n' with
      | true =>
        rw [visibleFrom_cons_of_shows shown,
          visibleFrom_cons_of_shows (next_newline_shows_blank shown)]
        exact ⟨fun _ => rfl, fun isEnd => absurd isEnd (by decide), behind _⟩
      | false =>
        rw [visibleFrom_cons_of_not_shows shown]
        exact blank behind _
    · rw [indented_cons isEnd]
      exact isIndented_visibleFrom_cons isEnd ih state

/-! ## The parts of a record -/

def path : Event → Path
  | .read _ path | .bareInput path | .paddedInput _ path | .filledPadding path _
  | .wrote _ path => path

def mark (event : Event) : String :=
  "[" ++ event.level.label

def header (event : Event) : String :=
  event.mark ++ " " ++ event.target ++ "] "

/-- What a message says in front of its path. -/
def lead : Event → String
  | .read count _ => "Read " ++ toString count ++ " bytes from "
  | .paddedInput count _ => "Stripping " ++ toString count ++ " bytes of padding from "
  | .filledPadding _ _ => "Padding in "
  | .wrote count _ => "Wrote " ++ toString count ++ " bytes to "
  | .bareInput _ => ""

/-- What a message says behind its path. -/
def trail : Event → String
  | .bareInput _ => " is already a bare ELF image, copying"
  | .filledPadding _ offset =>
    " is not zero-filled; using first ELF magic at 0x" ++ String.ofList (Nat.toDigits 16 offset)
  | _ => ""

theorem message_eq (event : Event) :
    event.message = event.lead ++ event.path.display ++ event.trail := by
  cases event with
  | read | paddedInput | wrote => exact String.append_empty.symm
  | bareInput => exact congrArg (· ++ _) String.empty_append.symm
  | filledPadding path offset => exact String.append_assoc

theorem allPrintable_header (event : Event) : AllPrintable event.header := by
  have label (level : Level) : AllPrintable level.label := by
    cases level <;> decide +kernel
  have target : AllPrintable event.target := by
    cases event with
    | wrote =>
      change AllPrintable "unpack_padded_elf"
      decide +kernel
    | read | bareInput | paddedInput | filledPadding =>
      change AllPrintable "unpad_core::unpack"
      decide +kernel
  have mark : AllPrintable event.mark := .append (by decide +kernel) (label _)
  exact ((mark.append (by decide +kernel)).append target).append (by decide +kernel)

theorem allPrintable_lead (event : Event) : AllPrintable event.lead := by
  have count (n : Nat) : AllPrintable (toString n) := by
    rw [Nat.toString_eq_ofList_toDigits]
    exact allPrintable_digits (by decide) n
  cases event with
  | read | paddedInput | wrote =>
    exact (AllPrintable.append (by decide +kernel) (count _)).append (by decide +kernel)
  | filledPadding =>
    change AllPrintable "Padding in "
    decide +kernel
  | bareInput => exact nofun

theorem allPrintable_trail (event : Event) : AllPrintable event.trail := by
  cases event with
  | filledPadding path offset =>
    exact .append (by decide +kernel) (allPrintable_digits (by decide) offset)
  | bareInput =>
    change AllPrintable " is already a bare ELF image, copying"
    decide +kernel
  | read | paddedInput | wrote => exact nofun

end Event

/-! ## What is shown of the parts -/

/-- Whether a line end is shown behind what messages say of a path.  It is not if the path leaves a
string unfinished. -/
def Path.LetsLineEnd (p : Path) : Prop :=
  (State.ground.after (Event.indented p.display.toList)).shows '\n'

instance : DecidablePred Path.LetsLineEnd := fun _ => inferInstanceAs (Decidable (_ = true))

theorem Path.letsLineEnd_of_no_escape {p : Path} (noEscape : '\x1b' ∉ p.display.toList) :
    p.LetsLineEnd := by
  have stillNone : '\x1b' ∉ Event.indented p.display.toList := by
    rw [Event.indented, List.mem_flatMap]
    rintro ⟨c, member, escape⟩
    split at escape
    next => exact absurd escape (by decide)
    next => exact noEscape (List.mem_singleton.mp escape ▸ member)
  rw [LetsLineEnd, after_of_no_escape stillNone]
  rfl

namespace Event

variable {event other : Event}

/-- What is shown of a record, but for the line end behind it. -/
def shown (event : Event) : List Char :=
  event.header.toList ++ event.lead.toList ++
    visibleFrom .ground (indented event.path.display.toList ++ event.trail.toList)

theorem trail_cases (event : Event) : event.trail = "" ∨ ∃ more, event.trail = " i" ++ more := by
  cases event with
  | bareInput =>
    refine .inr ⟨"s already a bare ELF image, copying", ?_⟩
    change " is already a bare ELF image, copying" = _
    decide +kernel
  | filledPadding path offset =>
    have opening : " is not zero-filled; using first ELF magic at 0x" =
        " i" ++ "s not zero-filled; using first ELF magic at 0x" := by
      decide +kernel
    exact .inr ⟨_, (congrArg (· ++ _) opening).trans String.append_assoc⟩
  | read | paddedInput | wrote => exact .inl rfl

/-- What a message says behind its path has no part in whether a line end is shown. -/
theorem shows_newline_behind_trail (event : Event) (state : State) :
    (state.after event.trail.toList).shows '\n' = state.shows '\n' := by
  rcases event.trail_cases with nothing | ⟨more, goesOn⟩
  · rw [nothing]
    rfl
  · have printable := allPrintable_trail event
    rw [goesOn, AllPrintable, String.toList_append, List.forall_mem_append] at printable
    obtain ⟨long, same⟩ := after_blank_letter state (c := 'i') (by decide)
    have opening : " i".toList = [' ', 'i'] := rfl
    rw [goesOn, String.toList_append, State.after_append, opening,
      (after_of_printable printable.2 long).2, same]

theorem toList_record (event : Event) :
    event.record.toList = event.shown ++ if event.path.LetsLineEnd then ['\n'] else [] := by
  have parts : event.record.toList = visibleFrom .ground
      (event.header.toList ++ (indented event.message.toList ++ ['\n'])) := by
    change (String.ofList (visibleFrom .ground
      (event.header ++ indentLines event.message ++ "\n").toList)).toList = _
    rw [String.toList_ofList, String.toList_append, String.toList_append, toList_indentLines,
      List.append_assoc]
    rfl
  have lead : indented event.lead.toList = event.lead.toList :=
    indented_of_notMem ((allPrintable_lead event).notMem (by decide))
  have trail : indented event.trail.toList = event.trail.toList :=
    indented_of_notMem ((allPrintable_trail event).notMem (by decide))
  have lineEnd : visibleFrom (State.ground.after
      (indented event.path.display.toList ++ event.trail.toList)) ['\n'] =
      if event.path.LetsLineEnd then ['\n'] else [] := by
    have shownOrNot (state : State) :
        visibleFrom state ['\n'] = if state.shows '\n' then ['\n'] else [] :=
      rfl
    rw [State.after_append, shownOrNot, shows_newline_behind_trail]
    rfl
  rw [parts, (allPrintable_header event).visibleFrom_append, message_eq, String.toList_append,
    String.toList_append, indented_append, indented_append, lead, trail, List.append_assoc,
    List.append_assoc, (allPrintable_lead event).visibleFrom_append, ← List.append_assoc _ _ ['\n'],
    visibleFrom_append, lineEnd, shown]
  simp only [List.append_assoc]

theorem isIndented_shown (event : Event) : IsIndented event.shown := by
  have whole {text : String} (printable : AllPrintable text) : '\n' ∉ text.toList :=
    printable.notMem (by decide)
  rw [shown, visibleFrom_append]
  refine .append (.append (.of_notMem (whole (allPrintable_header event)))
    (.of_notMem (whole (allPrintable_lead event))))
    (.append (isIndented_visibleFrom _ _) (.of_notMem fun member => ?_))
  exact whole (allPrintable_trail event) ((visibleFrom_sublist _ _).subset member)

theorem mark_prefix_header (event : Event) : event.mark.toList <+: event.header.toList := by
  simp only [header, String.toList_append, List.append_assoc]
  exact List.prefix_append _ _

theorem header_ne_nil (event : Event) : event.header.toList ≠ [] := by
  simp [header, mark]

theorem isOpen_shown (event : Event) : IsOpen event.shown := by
  refine ⟨?_, event.isIndented_shown.not_endsLine⟩
  rw [shown, List.append_assoc]
  exact List.append_ne_nil_of_left_ne_nil event.header_ne_nil _

theorem record_ne_nil (event : Event) : event.record.toList ≠ [] := by
  rw [toList_record]
  exact List.append_ne_nil_of_left_ne_nil event.isOpen_shown.1 _

theorem endsLine_record_iff (event : Event) :
    EndsLine event.record.toList ↔ event.path.LetsLineEnd := by
  rw [toList_record]
  by_cases lets : event.path.LetsLineEnd
  · rw [if_pos lets]
    exact iff_of_true List.getLast?_concat lets
  · rw [if_neg lets, List.append_nil]
    exact iff_of_false event.isOpen_shown.2 lets

theorem isOpen_record (opens : ¬ event.path.LetsLineEnd) : IsOpen event.record.toList :=
  ⟨event.record_ne_nil, event.endsLine_record_iff.not.mpr opens⟩

theorem linesOf_record (event : Event) : linesOf event.record.toList = linesOf event.shown := by
  rw [toList_record]
  split_ifs
  · exact event.isOpen_shown.linesOf_concat
  · rw [List.append_nil]

theorem linesOf_shown_append (event : Event) (rest : List Char) :
    ∃ line lines, linesOf (event.shown ++ rest) = line :: lines ∧ event.mark.toList <+: line := by
  have whole : '\n' ∉ event.header.toList := (allPrintable_header event).notMem (by decide)
  rw [shown, List.append_assoc, List.append_assoc,
    linesOf_append_of_notMem whole event.header_ne_nil]
  exact ⟨_, _, rfl, event.mark_prefix_header.trans (List.prefix_append _ _)⟩

theorem mark_prefix_of_head? (event : Event) (rest : List Char) :
    ∀ line ∈ (linesOf (event.record.toList ++ rest)).head?, event.mark.toList <+: line := by
  rw [toList_record, List.append_assoc]
  obtain ⟨line, lines, split, begins⟩ := event.linesOf_shown_append (_ ++ rest)
  rw [split]
  exact fun _ isFirst => Option.some.inj isFirst ▸ begins

theorem tail_linesOf_record (event : Event) :
    ∀ line ∈ (linesOf event.record.toList).tail, [' '] <+: line := by
  rw [linesOf_record]
  exact event.isIndented_shown.tail_linesOf

theorem forall_linesOf_record (event : Event) :
    ∀ line ∈ linesOf event.record.toList, BeginsWith event.mark.toList line := by
  obtain ⟨line, lines, split, begins⟩ := event.linesOf_shown_append []
  have further := event.tail_linesOf_record
  rw [List.append_nil] at split
  rw [linesOf_record, split] at further ⊢
  rw [List.forall_mem_cons]
  exact ⟨.inl begins, fun line member => .inr (further line member)⟩

/-! ## Telling records apart -/

theorem mark_prefix_record (event : Event) : event.mark.toList <+: event.record.toList := by
  rw [toList_record, shown, List.append_assoc, List.append_assoc]
  exact event.mark_prefix_header.trans (List.prefix_append _ _)

theorem bracket_prefix_mark (event : Event) : ['['] <+: event.mark.toList := by
  rw [mark, String.toList_append]
  exact List.prefix_append _ _

theorem level_eq_of_mark_prefix {line : List Char} (begins : event.mark.toList <+: line)
    (beginsToo : other.mark.toList <+: line) : event.level = other.level := by
  have length (level : Level) : ("[" ++ level.label).toList.length = 6 := by
    cases level <;> decide +kernel
  have distinct (level other : Level) :
      ("[" ++ level.label).toList = ("[" ++ other.label).toList → level = other := by
    cases level <;> cases other <;> decide +kernel
  refine distinct _ _ (List.IsPrefix.eq_of_length ?_ ((length _).trans (length _).symm))
  exact List.prefix_of_prefix_length_le begins beginsToo ((length _).trans (length _).symm).le

end Event

end ElfCarve
