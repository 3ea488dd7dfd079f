import Mathlib
import ElfCarve.Command.Outcome

/-!
# Lines of a text that is printed piece by piece

A piece that ends its last line leaves the lines of what follows alone.  A piece that does not is
open, and the first line of what follows is joined to its last one.

* `linesOf` is the lines of a text, `EndsLine` and `IsOpen` tell the two kinds of pieces apart.
* `linesOf_append` and `IsOpen.exists_joined` are the lines of two pieces.
* `not_sublist_linesOf` is about lines that are lost because a piece in front of them is open.
-/

namespace ElfCarve

variable {text front other rest header start line : List Char} {c : Char}

/-- The lines of a text.  What stands behind the last line end is a line of its own only if it is
not empty. -/
def linesOf (text : List Char) : List (List Char) :=
  let lines := text.splitOn '\n'
  if lines.getLast? = some [] then lines.dropLast else lines

def EndsLine (text : List Char) : Prop :=
  text.getLast? = some '\n'

instance : DecidablePred EndsLine := fun _ => inferInstanceAs (Decidable (_ = _))

def IsOpen (text : List Char) : Prop :=
  text ≠ [] ∧ ¬ EndsLine text

theorem Command.Outcome.messageLines_eq (outcome : Outcome) :
    outcome.messageLines =
      (linesOf (outcome.messages.flatMap String.toList)).map String.ofList :=
  rfl

@[simp] theorem linesOf_nil : linesOf [] = [] :=
  rfl

theorem exists_splitOn_newline (text : List Char) :
    ∃ first more, text.splitOn '\n' = first :: more :=
  List.exists_cons_of_ne_nil (List.splitOn_ne_nil _ _)

theorem linesOf_newline (rest : List Char) : linesOf ('\n' :: rest) = [] :: linesOf rest := by
  obtain ⟨first, more, split⟩ := exists_splitOn_newline rest
  have splits : ('\n' :: rest).splitOn '\n' = [] :: first :: more := by
    rw [List.splitOn_cons_eq_if_modifyHead, split]
    rfl
  rw [linesOf, linesOf, splits, split, List.getLast?_cons_cons, List.dropLast_cons_cons]
  split <;> rfl

theorem linesOf_cons (goesOn : c ≠ '\n') (rest : List Char) :
    linesOf (c :: rest) = (c :: (linesOf rest).headD []) :: (linesOf rest).tail := by
  obtain ⟨first, more, split⟩ := exists_splitOn_newline rest
  have splits : (c :: rest).splitOn '\n' = (c :: first) :: more := by
    rw [List.splitOn_cons_eq_if_modifyHead, split, if_neg (by simpa using goesOn)]
    rfl
  rw [linesOf, linesOf, splits, split]
  cases more with
  | nil => cases first <;> simp
  | cons second more =>
    rw [List.getLast?_cons_cons, List.getLast?_cons_cons]
    split <;> simp

theorem linesOf_ne_nil (filled : text ≠ []) : linesOf text ≠ [] := by
  cases text with
  | nil => exact absurd rfl filled
  | cons c rest =>
    by_cases isEnd : c = '\n'
    · rw [isEnd, linesOf_newline]
      exact List.cons_ne_nil _ _
    · rw [linesOf_cons isEnd]
      exact List.cons_ne_nil _ _

theorem head?_linesOf_cons (goesOn : c ≠ '\n') (rest : List Char) :
    ∀ line ∈ (linesOf (c :: rest)).head?, [c] <+: line := by
  rw [linesOf_cons goesOn]
  exact fun _ isFirst => Option.some.inj isFirst ▸ List.prefix_append [c] _

theorem linesOf_append_of_notMem (whole : '\n' ∉ header) (filled : header ≠ [])
    (rest : List Char) :
    linesOf (header ++ rest) = (header ++ (linesOf rest).headD []) :: (linesOf rest).tail := by
  induction header with
  | nil => exact absurd rfl filled
  | cons c header ih =>
    rw [List.mem_cons, not_or] at whole
    rw [List.cons_append, linesOf_cons (Ne.symm whole.1)]
    cases header with
    | nil => rfl
    | cons d header =>
      rw [ih whole.2 (List.cons_ne_nil _ _)]
      rfl

/-! ## Two pieces -/

theorem linesOf_append (ends : EndsLine front) (rest : List Char) :
    linesOf (front ++ rest) = linesOf front ++ linesOf rest := by
  induction front with
  | nil => cases ends
  | cons c front ih =>
    cases front with
    | nil =>
      obtain rfl : c = '\n' := Option.some.inj ends
      exact linesOf_newline rest
    | cons d front =>
      rw [EndsLine, List.getLast?_cons_cons] at ends
      obtain ⟨first, more, lines⟩ :=
        List.exists_cons_of_ne_nil (linesOf_ne_nil (List.cons_ne_nil d front))
      by_cases isEnd : c = '\n'
      · rw [isEnd, List.cons_append, linesOf_newline, linesOf_newline, ih ends]
        rfl
      · rw [List.cons_append, linesOf_cons isEnd, linesOf_cons isEnd, ih ends, lines]
        rfl

theorem IsOpen.exists_linesOf_append (isOpen : IsOpen front) :
    ∃ whole last, ∀ rest,
      linesOf (front ++ rest) =
        whole ++ (last ++ (linesOf rest).headD []) :: (linesOf rest).tail := by
  obtain ⟨filled, unfinished⟩ := isOpen
  induction front with
  | nil => exact absurd rfl filled
  | cons c front ih =>
    cases front with
    | nil =>
      have goesOn : c ≠ '\n' := fun isEnd => unfinished (congrArg some isEnd)
      exact ⟨[], [c], linesOf_cons goesOn⟩
    | cons d front =>
      rw [EndsLine, List.getLast?_cons_cons] at unfinished
      obtain ⟨whole, last, joined⟩ := ih (List.cons_ne_nil _ _) unfinished
      by_cases isEnd : c = '\n'
      · refine ⟨[] :: whole, last, fun rest => ?_⟩
        rw [isEnd, List.cons_append, linesOf_newline, joined]
        rfl
      · -- The character belongs to the first of the lines, which may be the joined one.
        cases whole with
        | nil =>
          refine ⟨[], c :: last, fun rest => ?_⟩
          rw [List.cons_append, linesOf_cons isEnd, joined]
          rfl
        | cons first whole =>
          refine ⟨(c :: first) :: whole, last, fun rest => ?_⟩
          rw [List.cons_append, linesOf_cons isEnd, joined]
          rfl

/-- An open piece has lines that what follows leaves alone, and a last one that is joined to the
first line of what follows. -/
theorem IsOpen.exists_joined (isOpen : IsOpen front) :
    ∃ whole last, linesOf front = whole ++ [last] ∧ ∀ rest,
      linesOf (front ++ rest) =
        whole ++ (last ++ (linesOf rest).headD []) :: (linesOf rest).tail := by
  obtain ⟨whole, last, joined⟩ := isOpen.exists_linesOf_append
  refine ⟨whole, last, ?_, joined⟩
  simpa using joined []

theorem isOpen_or_endsLine (filled : text ≠ []) : IsOpen text ∨ EndsLine text := by
  by_cases ends : EndsLine text
  · exact .inr ends
  · exact .inl ⟨filled, ends⟩

/-- A line that begins with a given text, or with a blank like a further line. -/
def BeginsWith (start line : List Char) : Prop :=
  start <+: line ∨ [' '] <+: line

theorem BeginsWith.append (begins : BeginsWith start line)
    (more : List Char) : BeginsWith start (line ++ more) :=
  begins.imp (·.trans (List.prefix_append _ _)) (·.trans (List.prefix_append _ _))

theorem BeginsWith.of_shorter {shorter : List Char} (begins : BeginsWith start line)
    (isPrefix : shorter <+: start) : BeginsWith shorter line :=
  begins.imp_left isPrefix.trans

theorem IsOpen.forall_linesOf_append (isOpen : IsOpen front)
    (begins : ∀ line ∈ linesOf front, BeginsWith start line)
    (further : ∀ line ∈ (linesOf rest).tail, BeginsWith start line) :
    ∀ line ∈ linesOf (front ++ rest), BeginsWith start line := by
  obtain ⟨whole, last, alone, joined⟩ := isOpen.exists_joined
  rw [alone, List.forall_mem_append, List.forall_mem_singleton] at begins
  rw [joined, List.forall_mem_append, List.forall_mem_cons]
  exact ⟨begins.1, begins.2.append _, further⟩

theorem forall_linesOf_append (begins : ∀ line ∈ linesOf front, BeginsWith start line)
    (beginToo : ∀ line ∈ linesOf rest, BeginsWith start line) :
    ∀ line ∈ linesOf (front ++ rest), BeginsWith start line := by
  by_cases filled : front = []
  · rw [filled]
    exact beginToo
  rcases isOpen_or_endsLine filled with isOpen | ends
  · refine isOpen.forall_linesOf_append begins fun line member => ?_
    exact beginToo line (List.mem_of_mem_tail member)
  · rw [linesOf_append ends, List.forall_mem_append]
    exact ⟨begins, beginToo⟩

theorem endsLine_append_iff (filled : rest ≠ []) : EndsLine (front ++ rest) ↔ EndsLine rest := by
  rw [EndsLine, EndsLine, List.getLast?_append_of_ne_nil _ filled]

theorem IsOpen.append (isOpen : IsOpen rest) (front : List Char) : IsOpen (front ++ rest) :=
  ⟨List.append_ne_nil_of_right_ne_nil _ isOpen.1, (endsLine_append_iff isOpen.1).not.mpr isOpen.2⟩

theorem IsOpen.linesOf_concat (isOpen : IsOpen front) :
    linesOf (front ++ ['\n']) = linesOf front := by
  obtain ⟨whole, last, alone, joined⟩ := isOpen.exists_joined
  rw [joined, alone]
  exact congrArg (fun line => whole ++ [line]) (List.append_nil last)

/-! ## Texts with indented lines -/

def IsIndented : List Char → Prop
  | [] => True
  | c :: rest => (c = '\n' → rest.head? = some ' ') ∧ IsIndented rest

namespace IsIndented

theorem of_notMem (whole : '\n' ∉ text) : IsIndented text := by
  induction text with
  | nil => trivial
  | cons c rest ih =>
    rw [List.mem_cons, not_or] at whole
    exact ⟨fun isEnd => absurd isEnd.symm whole.1, ih whole.2⟩

theorem append (indented : IsIndented front) (indentedToo : IsIndented rest) :
    IsIndented (front ++ rest) := by
  induction front with
  | nil => exact indentedToo
  | cons c front ih =>
    refine ⟨fun isEnd => ?_, ih indented.2⟩
    change (front ++ rest).head? = some ' '
    rw [List.head?_append, indented.1 isEnd, Option.some_or]

theorem not_endsLine (indented : IsIndented text) : ¬ EndsLine text := by
  induction text with
  | nil => exact nofun
  | cons c rest ih =>
    cases rest with
    | nil =>
      intro ends
      cases indented.1 (Option.some.inj ends)
    | cons d rest =>
      rw [EndsLine, List.getLast?_cons_cons]
      exact ih indented.2

theorem tail_linesOf (indented : IsIndented text) :
    ∀ line ∈ (linesOf text).tail, [' '] <+: line := by
  induction text with
  | nil => simp
  | cons c rest ih =>
    obtain ⟨begins, indented⟩ := indented
    by_cases isEnd : c = '\n'
    · rw [isEnd, linesOf_newline, List.tail_cons]
      cases rest with
      | nil => simp
      | cons d rest =>
        obtain rfl : d = ' ' := Option.some.inj (begins isEnd)
        have lines := linesOf_cons (c := ' ') (by decide) rest
        have others := ih indented
        rw [lines, List.tail_cons] at others
        rw [lines, List.forall_mem_cons]
        exact ⟨List.prefix_append [' '] _, others⟩
    · rw [linesOf_cons isEnd, List.tail_cons]
      exact ih indented

end IsIndented

/-! ## Lines that are lost -/

/-- Two texts end alike, and what stands in front of that is open in both, or nothing in the second
one.  Then the first line of the second text, where it does not begin like a line of the other
front, is lost, or a line behind it is: the common rest alone has too few. -/
theorem not_sublist_linesOf (isOpen : IsOpen front) (isOpenToo : other = [] ∨ IsOpen other)
    (filled : rest ≠ []) (begins : ∀ line ∈ linesOf front, BeginsWith start line)
    (unlike : ∀ line ∈ (linesOf (other ++ rest)).head?, ¬ BeginsWith start line) :
    ¬ (linesOf (other ++ rest)).Sublist (linesOf (front ++ rest)) := by
  obtain ⟨whole, last, alone, joined⟩ := isOpen.exists_joined
  rw [alone, List.forall_mem_append, List.forall_mem_singleton] at begins
  have enough : (linesOf rest).tail.length < (linesOf (other ++ rest)).length := by
    rcases isOpenToo with rfl | isOpenToo
    · rw [List.nil_append, List.length_tail]
      have positive := List.length_pos_iff.mpr (linesOf_ne_nil filled)
      omega
    · obtain ⟨wholeToo, lastToo, -, joinedToo⟩ := isOpenToo.exists_joined
      rw [joinedToo, List.length_append, List.length_cons]
      omega
  intro sublist
  rw [joined, ← List.singleton_append, ← List.append_assoc, List.sublist_append_iff] at sublist
  obtain ⟨lines, more, together, inFront, behind⟩ := sublist
  cases lines with
  | nil =>
    rw [together] at enough
    exact absurd behind.length_le (Nat.not_le.mpr enough)
  | cons line lines =>
    rw [together] at unlike
    rcases List.mem_append.mp (inFront.subset List.mem_cons_self) with isWhole | isJoined
    · exact unlike line rfl (begins.1 line isWhole)
    · rw [List.mem_singleton.mp isJoined] at unlike
      exact unlike _ rfl (begins.2.append _)

end ElfCarve
