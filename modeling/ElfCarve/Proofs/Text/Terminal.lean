import Mathlib
import ElfCarve.Proofs.Text.Utf8
import ElfCarve.Text.Terminal

/-!
# Line ends that a terminal would show

A line end is shown outside of orders and in the midst of a short one.  In a string it is not: there
it belongs to the string, like all that follows until the string ends.

* `State.after` is where a reader stands behind a text, and `visibleFrom_append` what is shown of
  two texts.
* `after_of_printable` says that printable characters neither begin nor end a string, unless they
  complete a short order.
* `after_of_no_escape` says that all orders begin with an escape character.
-/

namespace ElfCarve.Terminal

variable {state : State} {text : List Char} {c : Char}

def State.after (state : State) (text : List Char) : State :=
  text.foldl State.next state

theorem State.after_cons (state : State) (c : Char) (text : List Char) :
    state.after (c :: text) = (state.next c).after text :=
  rfl

theorem State.after_append (state : State) (text more : List Char) :
    state.after (text ++ more) = (state.after text).after more :=
  List.foldl_append

theorem visibleFrom_cons_of_shows (shown : state.shows c) (text : List Char) :
    visibleFrom state (c :: text) = c :: visibleFrom (state.next c) text := by
  rw [visibleFrom, if_pos shown]

theorem visibleFrom_cons_of_not_shows (hidden : state.shows c = false) (text : List Char) :
    visibleFrom state (c :: text) = visibleFrom (state.next c) text := by
  rw [visibleFrom, if_neg (by simp [hidden])]

theorem visibleFrom_append (state : State) (text more : List Char) :
    visibleFrom state (text ++ more) =
      visibleFrom state text ++ visibleFrom (state.after text) more := by
  induction text generalizing state with
  | nil => rfl
  | cons c text ih =>
    rw [List.cons_append, State.after_cons]
    cases shown : state.shows c with
    | true =>
      rw [visibleFrom_cons_of_shows shown, visibleFrom_cons_of_shows shown, ih, List.cons_append]
    | false =>
      rw [visibleFrom_cons_of_not_shows shown, visibleFrom_cons_of_not_shows shown, ih]

/-! ## One character -/

theorem next_of_not_shows (hidden : state.shows c = false) (noEscape : c ≠ '\x1b')
    (noCancel : c ≠ '\x18') (noSubstitute : c ≠ '\x1a') : state.next c = state.afterHidden c := by
  rw [State.next, if_neg (by simp [hidden]), if_neg noEscape,
    if_neg (not_or.mpr ⟨noCancel, noSubstitute⟩)]

theorem next_newline_shows_blank (shown : state.shows '\n') : (state.next '\n').shows ' ' := by
  cases state with
  | ground | short | putOff => rfl
  | _ => cases shown

/-! ## Printable characters -/

def IsPrintable (c : Char) : Prop :=
  0x20 ≤ c.toNat ∧ c.toNat < 0x7f

instance : DecidablePred IsPrintable := fun _ => inferInstanceAs (Decidable (_ ∧ _))

theorem IsPrintable.ne {control : Char} (printable : IsPrintable c)
    (isControl : ¬ IsPrintable control) : c ≠ control := by
  rintro rfl
  exact isControl printable

theorem IsPrintable.shows_ground (printable : IsPrintable c) : State.ground.shows c := by
  obtain ⟨low, high⟩ := printable
  simp only [State.shows, Bool.or_eq_true, Bool.and_eq_true, decide_eq_true_eq]
  exact .inr ⟨low, by omega⟩

theorem IsPrintable.not_isLayout (printable : IsPrintable c) : isLayout c = false := by
  have tab : c ≠ '\t' := printable.ne (by decide)
  have newline : c ≠ '\n' := printable.ne (by decide)
  have formFeed : c ≠ '\x0c' := printable.ne (by decide)
  have carriageReturn : c ≠ '\r' := printable.ne (by decide)
  simp [isLayout, tab, newline, formFeed, carriageReturn]

theorem IsPrintable.not_endsString (printable : IsPrintable c) : endsString c = false := by
  obtain ⟨-, high⟩ := printable
  have byte : (UInt8.ofNat c.toNat).toNat = c.toNat := by
    simp [Nat.mod_eq_of_lt (show c.toNat < 256 by omega)]
  rw [endsString, Utf8.encodeChar_of_ascii (by omega), List.contains_eq_mem,
    decide_eq_false_iff_not, List.mem_singleton]
  intro same
  rw [← same] at byte
  have code : 0x9c = c.toNat := byte
  omega

def State.isShort : State → Bool
  | .short _ => true
  | _ => false

/-- In a long order, and outside of all, a printable character changes nothing about line ends. -/
theorem next_of_printable (printable : IsPrintable c) (long : state.isShort = false) :
    (state.next c).isShort = false ∧ (state.next c).shows '\n' = state.shows '\n' := by
  have goesOn (hidden : state.shows c = false) : state.next c = state.afterHidden c :=
    next_of_not_shows hidden (printable.ne (by decide)) (printable.ne (by decide))
      (printable.ne (by decide))
  cases state with
  | short => cases long
  | ground =>
    rw [State.next, if_pos printable.shows_ground]
    exact ⟨rfl, rfl⟩
  | putOff order =>
    have shown : (State.putOff order).shows c := printable.shows_ground
    obtain ⟨-, high⟩ := printable
    rw [State.next, if_pos shown, State.afterShown, if_pos (by omega)]
    exact ⟨rfl, rfl⟩
  | device | deviceParameters | deviceQualified =>
    rw [goesOn rfl, State.afterHidden]
    split_ifs <;> exact ⟨rfl, rfl⟩
  | string =>
    rw [goesOn rfl, State.afterHidden, if_neg (by simp [printable.not_endsString])]
    exact ⟨rfl, rfl⟩
  | command =>
    rw [goesOn rfl, State.afterHidden, if_neg (printable.ne (by decide))]
    exact ⟨rfl, rfl⟩

theorem after_of_printable (printable : ∀ c ∈ text, IsPrintable c)
    (long : state.isShort = false) :
    (state.after text).isShort = false ∧ (state.after text).shows '\n' = state.shows '\n' := by
  induction text generalizing state with
  | nil => exact ⟨long, rfl⟩
  | cons c text ih =>
    rw [List.forall_mem_cons] at printable
    obtain ⟨stays, same⟩ := next_of_printable printable.1 long
    rw [State.after_cons, ← same]
    exact ih printable.2 stays

/-- A blank and a letter complete every short order. -/
theorem after_blank_letter (state : State) (letter : inRange 0x40 0x7e c) :
    (state.after [' ', c]).isShort = false ∧
      (state.after [' ', c]).shows '\n' = state.shows '\n' := by
  have bounds := letter
  rw [inRange, Bool.and_eq_true, decide_eq_true_eq, decide_eq_true_eq] at bounds
  have printable : IsPrintable c := ⟨by omega, by omega⟩
  cases long : state.isShort with
  | false =>
    refine after_of_printable ?_ long
    simp [printable, show IsPrintable ' ' by decide]
  | true =>
    cases state with
    | short order =>
      have completes (order : ShortOrder) (ends : order.next c = .ground) :
          (State.short order).next c = .ground := by
        have hidden : (State.short order).shows c = false := printable.not_isLayout
        rw [next_of_not_shows hidden (printable.ne (by decide)) (printable.ne (by decide))
          (printable.ne (by decide))]
        exact ends
      have qualified : inRange 0x30 0x7e c := by
        rw [inRange, Bool.and_eq_true, decide_eq_true_eq, decide_eq_true_eq]
        omega
      have done : (State.short order).after [' ', c] = .ground := by
        cases order with
        | escape | qualified => exact completes .qualified (if_pos qualified)
        | sequence => exact completes .sequence (if_pos letter)
      rw [done]
      exact ⟨rfl, rfl⟩
    | _ => cases long

/-! ## Texts without an escape character -/

theorem after_of_no_escape (noEscape : '\x1b' ∉ text) : State.ground.after text = .ground := by
  induction text with
  | nil => rfl
  | cons c text ih =>
    rw [List.mem_cons, not_or] at noEscape
    have stays : State.ground.next c = .ground := by
      rw [State.next, if_neg (Ne.symm noEscape.1)]
      split_ifs <;> rfl
    rw [State.after_cons, stays, ih noEscape.2]

/-! ## Printable texts -/

def AllPrintable (text : String) : Prop :=
  ∀ c ∈ text.toList, IsPrintable c

instance (text : String) : Decidable (AllPrintable text) :=
  decidable_of_iff (text.toList.all (IsPrintable ·)) (by simp [AllPrintable])

namespace AllPrintable

variable {text more : String}

theorem append (printable : AllPrintable text) (printableToo : AllPrintable more) :
    AllPrintable (text ++ more) := by
  rw [AllPrintable, String.toList_append, List.forall_mem_append]
  exact ⟨printable, printableToo⟩

theorem notMem {control : Char} (printable : AllPrintable text)
    (isControl : ¬ IsPrintable control) : control ∉ text.toList :=
  fun member => isControl (printable control member)

theorem visibleFrom_append (printable : AllPrintable text) (rest : List Char) :
    visibleFrom .ground (text.toList ++ rest) = text.toList ++ visibleFrom .ground rest := by
  rw [Terminal.visibleFrom_append, after_of_no_escape (printable.notMem (by decide)),
    visibleFrom_of_plain fun c member => (printable c member).shows_ground]

end AllPrintable

theorem isPrintable_digitChar : ∀ n < 16, IsPrintable (Nat.digitChar n) := by
  decide

theorem isPrintable_of_mem_toDigits {base n : Nat} (bounds : 1 < base ∧ base ≤ 16)
    (digit : c ∈ Nat.toDigits base n) : IsPrintable c := by
  induction n using Nat.strongRecOn with
  | ind n ih =>
    rw [Nat.toDigits_eq_if bounds.1] at digit
    split at digit
    next single =>
      rw [List.mem_singleton.mp digit]
      exact isPrintable_digitChar n (by omega)
    next several =>
      rcases List.mem_append.mp digit with front | last
      · exact ih _ (Nat.div_lt_self (by omega) bounds.1) front
      · rw [List.mem_singleton.mp last]
        have small := Nat.mod_lt n (show 0 < base by omega)
        exact isPrintable_digitChar _ (by omega)

theorem allPrintable_digits {base : Nat} (bounds : 1 < base ∧ base ≤ 16) (n : Nat) :
    AllPrintable (String.ofList (Nat.toDigits base n)) := by
  rw [AllPrintable, String.toList_ofList]
  exact fun c => isPrintable_of_mem_toDigits bounds

end ElfCarve.Terminal
