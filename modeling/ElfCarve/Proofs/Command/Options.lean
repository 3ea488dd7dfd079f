import Mathlib
import ElfCarve.Command.Options

/-!
# What a line asks for

`Progress.take_eq_ok` says all that can happen when a token is taken in.  What holds of a line that
is accepted follows from it, token by token.
-/

namespace ElfCarve.Command

variable {progress next : Progress} {token : Token} {tokens : List Token} {options : Options}
  {arguments : List Bytes}

namespace Progress

theorem settle_eq (progress : Progress) :
    progress.settle = .ok progress ∨ ∃ error, progress.settle = .error (.misuse error) := by
  unfold settle
  split
  next => exact .inr ⟨_, rfl⟩
  next => exact .inr ⟨_, rfl⟩
  next => exact .inl rfl

/-- A token that is taken in is a flag for a report, one for more to log, or an operand, and it
changes just what it is about. -/
theorem take_eq_ok (taken : progress.take token = .ok next) :
    (token = .flag .json ∧ progress.json = false ∧ next = { progress with json := true }) ∨
    (token = .flag .verbose ∧
      next = { progress with verbosity := min verbosityLimit (progress.verbosity + 1) }) ∨
    ∃ bytes, token = .operand bytes ∧ progress.operands.length < 2 ∧
      next = { progress with operands := progress.operands ++ [bytes] } := by
  cases token with
  | unknown | unneeded => cases taken
  | flag flag =>
    -- An empty operand in front would have been refused, so what was taken in before is in order.
    rw [take] at taken
    rcases progress.settle_eq with settled | ⟨error, refused⟩
    · rw [settled, Except.bind] at taken
      cases flag with
      | help | version => cases taken
      | verbose =>
        cases taken
        exact .inr (.inl ⟨rfl, rfl⟩)
      | json =>
        simp only [takeFlag] at taken
        split at taken
        next => cases taken
        next first =>
          cases taken
          exact .inl ⟨rfl, Bool.eq_false_iff.mpr first, rfl⟩
    · rw [refused] at taken
      cases taken
  | operand bytes =>
    rw [take] at taken
    split at taken
    next room =>
      rcases progress.settle_eq with settled | ⟨error, refused⟩
      · rw [settled] at taken
        cases taken
        exact .inr (.inr ⟨bytes, rfl, room, rfl⟩)
      · rw [refused] at taken
        cases taken
    next => cases taken

theorem verbosity_of_take (taken : progress.take token = .ok next)
    (quiet : token ≠ .flag .verbose) : next.verbosity = progress.verbosity := by
  rcases take_eq_ok taken with ⟨-, -, rfl⟩ | ⟨isVerbose, -⟩ | ⟨bytes, -, -, rfl⟩
  · rfl
  · exact absurd isVerbose quiet
  · rfl

theorem verbosity_of_finish (finished : progress.finish = .ok options) :
    options.verbosity = progress.verbosity := by
  rw [finish] at finished
  rcases progress.settle_eq with settled | ⟨error, refused⟩
  · rw [settled, Except.bind] at finished
    split at finished
    next => cases finished
    next => cases finished
    next =>
      cases finished
      rfl
  · rw [refused] at finished
    cases finished

theorem verbosity_of_run (ran : progress.run tokens = .ok options)
    (quiet : .flag .verbose ∉ tokens) : options.verbosity = progress.verbosity := by
  induction tokens generalizing progress with
  | nil => exact verbosity_of_finish ran
  | cons token tokens ih =>
    rw [List.mem_cons, not_or] at quiet
    rw [run] at ran
    cases taken : progress.take token with
    | error stop =>
      rw [taken] at ran
      cases ran
    | ok next =>
      rw [taken] at ran
      rw [ih ran quiet.2, verbosity_of_take taken (Ne.symm quiet.1)]

end Progress

theorem Options.verbosity_of_parse (parsed : parse arguments = .ok options)
    (quiet : .flag .verbose ∉ Token.ofArguments arguments) : options.verbosity = 0 :=
  Progress.verbosity_of_run parsed quiet

end ElfCarve.Command
