import ElfCarve.Log.Filter
import Mathlib

/-!
# What the filters of a verbosity let pass

* `admits_ofVerbosity` says how much passes, and `records_sublist` that more passes if more is asked
  for.
-/

namespace ElfCarve.Filter

variable {event : Event} {events : List Event}

theorem admits_uniform {level : Level} :
    (uniform level).admits event = (Threshold.upTo level).admits event.level := by
  simp [admits, threshold, uniform, Directive.fit?]

theorem not_admits_warn : (Threshold.upTo .warn).admits event.level = false := by
  cases event <;> rfl

theorem records_ofVerbosity_zero : (ofVerbosity 0).records events = [] := by
  have refused (event : Event) : (ofVerbosity 0).admits event = false :=
    admits_uniform.trans not_admits_warn
  simp [records, refused]

/-! ## More to log -/

variable {lesser greater : Nat}

/-- Each step of verbosity lets one more level pass, up to the second. -/
theorem admits_ofVerbosity (verbosity : Nat) :
    (ofVerbosity verbosity).admits event = decide (event.level.rank ≤ 2 + min verbosity 2) := by
  match verbosity with
  | 0 | 1 => exact admits_uniform
  | further + 2 =>
    rw [Nat.min_eq_right (by omega)]
    exact admits_uniform

theorem ofVerbosity_congr (same : min lesser 2 = min greater 2) :
    ofVerbosity lesser = ofVerbosity greater := by
  match lesser, greater with
  | 0, 0 | 1, 1 | _ + 2, _ + 2 => rfl
  | 0, 1 | 1, 0 => cases same
  | 0, _ + 2 | 1, _ + 2 | _ + 2, 0 | _ + 2, 1 => omega

theorem records_sublist (more : lesser ≤ greater) (events : List Event) :
    ((ofVerbosity lesser).records events).Sublist ((ofVerbosity greater).records events) := by
  refine List.Sublist.map _ (List.monotone_filter_right _ fun event passes => ?_)
  rw [admits_ofVerbosity, decide_eq_true_eq] at passes ⊢
  omega

theorem records_ofVerbosity_one (events : List Event) :
    (ofVerbosity 1).records events = (events.filter (·.level = .info)).map Event.record := by
  have passes (event : Event) : (ofVerbosity 1).admits event = decide (event.level = .info) := by
    rw [admits_ofVerbosity]
    cases event <;> rfl
  rw [records, funext passes]

theorem records_ofVerbosity_of_two_le (much : 2 ≤ greater) (events : List Event) :
    (ofVerbosity greater).records events = events.map Event.record := by
  have passes (event : Event) : (ofVerbosity greater).admits event = true := by
    rw [admits_ofVerbosity, Nat.min_eq_right much]
    cases event <;> rfl
  rw [records, List.filter_eq_self.mpr fun event _ => passes event]

end ElfCarve.Filter
