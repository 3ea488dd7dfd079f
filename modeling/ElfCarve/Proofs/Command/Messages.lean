import ElfCarve.Proofs.Command.Runs
import ElfCarve.Proofs.Log.Record

/-!
# Lines of messages with further records among them

What is printed are the messages one behind the other, and a record that does not end its line runs
into the message behind it.  If records are added to messages, their lines are still there if and
only if no record that was added runs into one of them.

* `KeepsApart` says that none does.
* `sublist_linesOf_records` is about records that all end their lines.
* `sublist_printed_iff_of_error` is about any records in front of an error, and
  `sublist_printed_iff_of_finding` about those of a carving around what it tells of its input.
-/

namespace ElfCarve.Command

def printed (messages : List String) : List Char :=
  messages.flatMap String.toList

/-- None of the messages that are added to others runs into one of those: each that stands in front
of one ends its line. -/
def KeepsApart (messages louder : List String) : Prop :=
  ∀ added kept, [added, kept] <:+: louder → added ∉ messages → kept ∈ messages →
    EndsLine added.toList

variable {messages louder : List String} {event : Event} {events : List Event}

theorem printed_cons (message : String) (messages : List String) :
    printed (message :: messages) = message.toList ++ printed messages :=
  rfl

theorem printed_append (messages more : List String) :
    printed (messages ++ more) = printed messages ++ printed more :=
  List.flatMap_append

@[simp] theorem printed_singleton (message : String) : printed [message] = message.toList :=
  List.append_nil _

theorem printed_records_concat (front : List Event) (last : Event) :
    printed ((front ++ [last]).map Event.record) =
      printed (front.map Event.record) ++ last.record.toList := by
  rw [List.map_append, printed_append, List.map_singleton, printed_singleton]

theorem sublist_messageLines_iff {outcome other : Outcome} :
    outcome.messageLines.Sublist other.messageLines ↔
      (linesOf (printed outcome.messages)).Sublist (linesOf (printed other.messages)) := by
  rw [Outcome.messageLines_eq, Outcome.messageLines_eq]
  refine ⟨fun sublist => ?_, List.Sublist.map _⟩
  have back := sublist.map String.toList
  rw [List.map_map, List.map_map] at back
  simpa [Function.comp_def, printed] using back

theorem keepsApart_refl (messages : List String) : KeepsApart messages messages := by
  intro added kept adjacent isNew
  exact absurd (adjacent.subset List.mem_cons_self) isNew

/-! ## Records -/

theorem toList_errorMessage (text : String) :
    (errorMessage text).toList = 'e' :: ("rror: " ++ text ++ "\n").toList := by
  simp only [errorMessage, String.toList_append]
  rfl

theorem printed_error_ne_nil (text : String) : printed [errorMessage text] ≠ [] := by
  rw [printed_singleton, toList_errorMessage]
  exact List.cons_ne_nil _ _

theorem not_begins_of_ne {c d : Char} {line : List Char} (begins : [c] <+: line)
    (different : c ≠ d) : ¬ [d] <+: line := by
  obtain ⟨rest, rfl⟩ := begins
  rw [List.singleton_append, List.cons_prefix_cons]
  exact fun begins => different begins.1.symm

theorem record_ne_errorMessage (event : Event) (text : String) :
    event.record ≠ errorMessage text := by
  intro same
  have begins := event.bracket_prefix_mark.trans event.mark_prefix_record
  rw [same, toList_errorMessage] at begins
  exact not_begins_of_ne (List.prefix_append ['e'] _) (by decide) begins

theorem record_ne_of_level {other : Event} (different : event.level ≠ other.level) :
    event.record ≠ other.record := fun same =>
  different (Event.level_eq_of_mark_prefix event.mark_prefix_record
    (same ▸ other.mark_prefix_record))

theorem forall_linesOf_records (events : List Event) :
    ∀ line ∈ linesOf (printed (events.map Event.record)), BeginsWith ['['] line := by
  induction events with
  | nil => exact nofun
  | cons event events ih =>
    refine forall_linesOf_append (fun line isLine => ?_) ih
    exact (event.forall_linesOf_record line isLine).of_shorter event.bracket_prefix_mark

/-! ## Records that end their lines -/

theorem linesOf_records_append (finished : ∀ event ∈ events, event.path.LetsLineEnd)
    (others : List String) :
    linesOf (printed (events.map Event.record ++ others)) =
      events.flatMap (linesOf ·.record.toList) ++ linesOf (printed others) := by
  induction events with
  | nil => rfl
  | cons event events ih =>
    rw [List.forall_mem_cons] at finished
    have ends : EndsLine event.record.toList := event.endsLine_record_iff.mpr finished.1
    rw [List.map_cons, List.cons_append, printed_cons, linesOf_append ends, ih finished.2,
      List.flatMap_cons, List.append_assoc]

theorem sublist_linesOf_records {fewer : List Event} (part : fewer.Sublist events)
    (finished : ∀ event ∈ events, event.path.LetsLineEnd) (others : List String) :
    (linesOf (printed (fewer.map Event.record ++ others))).Sublist
      (linesOf (printed (events.map Event.record ++ others))) := by
  rw [linesOf_records_append finished,
    linesOf_records_append fun event member => finished event (part.subset member)]
  exact (part.flatMap _).append (List.Sublist.refl _)

theorem keepsApart_of_letsLineEnd {others : List String}
    (finished : ∀ event ∈ events, event.path.LetsLineEnd)
    (known : ∀ message ∈ others, message ∈ messages) :
    KeepsApart messages (events.map Event.record ++ others) := by
  intro added kept adjacent isAdded _
  rcases List.mem_append.mp (adjacent.subset List.mem_cons_self) with isRecord | isOther
  · obtain ⟨event, member, rfl⟩ := List.mem_map.mp isRecord
    exact event.endsLine_record_iff.mpr (finished event member)
  · exact absurd (known added isOther) isAdded

/-! ## Records in front of an error -/

/-- The message in front of an error is the last record. -/
theorem keepsApart_concat_iff (front : List Event) (last : Event) (text : String) :
    KeepsApart [errorMessage text] ((front ++ [last]).map Event.record ++ [errorMessage text]) ↔
      EndsLine last.record.toList := by
  have isRecord : errorMessage text ∉ (front ++ [last]).map Event.record := by
    rw [List.mem_map]
    rintro ⟨event, -, same⟩
    exact record_ne_errorMessage event text same
  constructor
  · intro apart
    refine apart last.record (errorMessage text) ?_ ?_ List.mem_cons_self
    · rw [List.map_append, List.append_assoc]
      exact (List.suffix_append _ _).isInfix
    · rw [List.mem_singleton]
      exact record_ne_errorMessage last text
  · intro ends added kept adjacent _ isKept
    obtain rfl := List.mem_singleton.mp isKept
    obtain ⟨before, behind, split⟩ := adjacent
    rcases List.eq_nil_or_concat behind with rfl | ⟨between, message, rfl⟩
    · have apart : [added, errorMessage text] = [added] ++ [errorMessage text] := rfl
      rw [List.append_nil, apart, ← List.append_assoc] at split
      have records := List.append_inj_left' split rfl
      rw [List.map_append] at records
      obtain rfl : added = last.record :=
        List.singleton_inj.mp (List.append_inj_right' records rfl)
      exact ends
    · -- With something behind it, the error would stand among the records.
      rw [List.concat_eq_append, ← List.append_assoc] at split
      have records := List.append_inj_left' split rfl
      refine absurd ?_ isRecord
      rw [← records]
      simp

theorem sublist_printed_iff_of_error {error : List String}
    (isError : error = [] ∨ ∃ text, error = [errorMessage text]) (events : List Event) :
    (linesOf (printed error)).Sublist
        (linesOf (printed (events.map Event.record ++ error))) ↔
      KeepsApart error (events.map Event.record ++ error) := by
  rcases isError with rfl | ⟨text, rfl⟩
  · exact iff_of_true (List.nil_sublist _) fun _ _ _ _ isKept => absurd isKept List.not_mem_nil
  rcases List.eq_nil_or_concat' events with rfl | ⟨front, last, rfl⟩
  · exact iff_of_true (List.Sublist.refl _) (keepsApart_refl _)
  rw [keepsApart_concat_iff, printed_append]
  by_cases ends : EndsLine last.record.toList
  · refine iff_of_true ?_ ends
    rw [linesOf_append (by rwa [printed_records_concat, endsLine_append_iff last.record_ne_nil])]
    exact List.sublist_append_right _ _
  · refine iff_of_false ?_ ends
    have isOpen : IsOpen (printed ((front ++ [last]).map Event.record)) := by
      rw [printed_records_concat]
      exact IsOpen.append ⟨last.record_ne_nil, ends⟩ _
    -- Lines of records do not begin like the error, which has lost its first line.
    have unlike (line : List Char)
        (isFirst : line ∈ (linesOf (printed [errorMessage text])).head?) :
        ¬ BeginsWith ['['] line := by
      rw [printed_singleton, toList_errorMessage] at isFirst
      have begins := head?_linesOf_cons (by decide) _ line isFirst
      exact not_or.mpr ⟨not_begins_of_ne begins (by decide), not_begins_of_ne begins (by decide)⟩
    exact not_sublist_linesOf isOpen (.inl rfl) (printed_error_ne_nil text)
      (forall_linesOf_records _) unlike

/-! ## Records around what is told of the input -/

variable {read finding : Event} {more : List Event} {others : List String}

/-- Records about a path that leaves a string unfinished are all open, so each but the first is
joined to one in front of it. -/
theorem forall_linesOf_joined (opens : ¬ event.path.LetsLineEnd)
    (samePath : ∀ other ∈ events, other.path = event.path) :
    IsOpen (printed ((event :: events).map Event.record)) ∧
      ∀ line ∈ linesOf (printed ((event :: events).map Event.record)),
        BeginsWith event.mark.toList line := by
  have isOpen (other : Event) (same : other.path = event.path) : IsOpen other.record.toList :=
    Event.isOpen_record (same ▸ opens)
  induction events using List.reverseRecOn with
  | nil =>
    rw [List.map_singleton, printed_singleton]
    exact ⟨isOpen event rfl, event.forall_linesOf_record⟩
  | append_singleton events last ih =>
    rw [List.forall_mem_append, List.forall_mem_singleton] at samePath
    obtain ⟨joined, begins⟩ := ih samePath.1
    rw [← List.cons_append, printed_records_concat]
    refine ⟨(isOpen last samePath.2).append _, ?_⟩
    refine joined.forall_linesOf_append begins fun line isLine => ?_
    exact .inr (last.tail_linesOf_record line isLine)

/-- The record of what is told of the input is lost, or a line behind it is, where records that are
open are printed in front of it and between. -/
theorem not_sublist_linesOf_finding (different : read.level ≠ finding.level)
    (samePath : ∀ event ∈ finding :: more, event.path = read.path)
    (opens : ¬ read.path.LetsLineEnd) (filled : printed others ≠ []) :
    ¬ (linesOf (printed (finding.record :: others))).Sublist
      (linesOf (printed ((read :: finding :: more).map Event.record ++ others))) := by
  obtain ⟨isOpen, begins⟩ := forall_linesOf_joined opens samePath
  have isOpenToo : IsOpen finding.record.toList :=
    Event.isOpen_record (samePath finding List.mem_cons_self ▸ opens)
  rw [printed_append, printed_cons]
  refine not_sublist_linesOf isOpen (.inr isOpenToo) filled begins fun line isFirst => ?_
  have starts := finding.mark_prefix_of_head? _ line isFirst
  refine not_or.mpr ⟨fun startsToo => ?_, ?_⟩
  · exact different (Event.level_eq_of_mark_prefix startsToo starts)
  · exact not_begins_of_ne (finding.bracket_prefix_mark.trans starts) (by decide)

/-- Of records about one path one is printed with others behind it, or further ones are printed in
front of it and between. -/
theorem sublist_printed_iff_of_finding (different : read.level ≠ finding.level)
    (samePath : ∀ event ∈ finding :: more, event.path = read.path)
    (isNew : read.record ∉ others) (filled : printed others ≠ []) :
    (linesOf (printed (finding.record :: others))).Sublist
        (linesOf (printed ((read :: finding :: more).map Event.record ++ others))) ↔
      KeepsApart (finding.record :: others)
        ((read :: finding :: more).map Event.record ++ others) := by
  by_cases lets : read.path.LetsLineEnd
  · have finished : ∀ event ∈ read :: finding :: more, event.path.LetsLineEnd := by
      rw [List.forall_mem_cons]
      exact ⟨lets, fun event member => (samePath event member).symm ▸ lets⟩
    have part : [finding].Sublist (read :: finding :: more) :=
      List.singleton_sublist.mpr (List.mem_cons_of_mem _ List.mem_cons_self)
    refine iff_of_true (sublist_linesOf_records part finished others) ?_
    exact keepsApart_of_letsLineEnd finished fun _ => List.mem_cons_of_mem _
  · refine iff_of_false (not_sublist_linesOf_finding different samePath lets filled) ?_
    intro apart
    refine lets (read.endsLine_record_iff.mp (apart read.record finding.record ?_ ?_ ?_))
    · exact (List.prefix_append [read.record, finding.record] _).isInfix
    · rw [List.mem_cons, not_or]
      exact ⟨record_ne_of_level different, isNew⟩
    · exact List.mem_cons_self

end ElfCarve.Command
