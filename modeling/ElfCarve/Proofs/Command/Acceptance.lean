import ElfCarve.Proofs.Command.Options

/-!
# Tokens that are accepted

A line of tokens is accepted if each of them fits, at most one asks for a report, and the operands
among them are two, neither of them empty.  Their order matters for nothing but which operand is
which.

* `Progress.Accepts` says so of the tokens that are left of a line, together with what has been
  taken in of it.
* `Progress.accepts_iff_of_take` and `Progress.Accepts.exists_take` are one step, and
  `Progress.run_eq_ok_iff` is the whole line.
-/

namespace ElfCarve.Command

def Token.fits : Token → Bool
  | .flag .json | .flag .verbose | .operand _ => true
  | _ => false

@[simp] theorem Token.fits_json : (flag .json).fits := rfl

@[simp] theorem Token.fits_verbose : (flag .verbose).fits := rfl

@[simp] theorem Token.fits_operand (bytes : Bytes) : (operand bytes).fits := rfl

def Token.operand? : Token → Option Bytes
  | .operand bytes => some bytes
  | _ => none

@[simp] theorem Token.operand?_operand (bytes : Bytes) : (operand bytes).operand? = some bytes :=
  rfl

@[simp] theorem Token.operand?_flag (known : Flag) : (flag known).operand? = none := rfl

namespace Progress

variable {progress next : Progress} {token : Token} {tokens : List Token} {options : Options}

/-- The tokens that are left of a line are accepted with what has been taken in of it, and the
whole line asks for these options. -/
@[mk_iff]
structure Accepts (progress : Progress) (tokens : List Token) (options : Options) : Prop where
  fits : ∀ token ∈ tokens, token.fits
  operands : progress.operands ++ tokens.filterMap Token.operand? =
    [options.input.bytes, options.output.bytes]
  input_ne_nil : options.input.bytes ≠ []
  output_ne_nil : options.output.bytes ≠ []
  /-- A report is asked for as often as it is made, which is once at most. -/
  json : options.json.toNat = progress.json.toNat + tokens.count (.flag .json)
  verbosity : options.verbosity =
    min verbosityLimit (progress.verbosity + tokens.count (.flag .verbose))

theorem settle_of_notMem (filled : [] ∉ progress.operands) : progress.settle = .ok progress := by
  unfold settle
  split
  next empty => simp [empty] at filled
  next empty => simp [empty] at filled
  next => rfl

theorem Accepts.settle (accepts : progress.Accepts tokens options) :
    progress.settle = .ok progress := by
  apply settle_of_notMem
  intro empty
  have member : [] ∈ [options.input.bytes, options.output.bytes] := by
    rw [← accepts.operands]
    exact List.mem_append_left _ empty
  rcases List.mem_pair.mp member with isInput | isOutput
  · exact accepts.input_ne_nil isInput.symm
  · exact accepts.output_ne_nil isOutput.symm

theorem accepts_iff_of_take (taken : progress.take token = .ok next) :
    progress.Accepts (token :: tokens) options ↔ next.Accepts tokens options := by
  rcases take_eq_ok taken with ⟨rfl, first, rfl⟩ | ⟨rfl, rfl⟩ | ⟨bytes, rfl, -, rfl⟩
  · have json : progress.json.toNat + (tokens.count (.flag .json) + 1) =
        true.toNat + tokens.count (.flag .json) := by
      rw [first, Bool.toNat_false, Bool.toNat_true]
      omega
    simp [accepts_iff, List.filterMap_cons, json]
  · have verbosity : min verbosityLimit (progress.verbosity + (tokens.count (.flag .verbose) + 1)) =
        min verbosityLimit
          (min verbosityLimit (progress.verbosity + 1) + tokens.count (.flag .verbose)) := by
      omega
    simp [accepts_iff, List.filterMap_cons, verbosity]
  · simp [accepts_iff]

theorem Accepts.exists_take (accepts : progress.Accepts (token :: tokens) options) :
    ∃ next, progress.take token = .ok next := by
  have fits : token.fits := accepts.fits token List.mem_cons_self
  cases token with
  | unknown | unneeded => cases fits
  | operand bytes =>
    have room : progress.operands.length < 2 := by
      have length := congrArg List.length accepts.operands
      simp at length
      omega
    rw [take, if_pos room, accepts.settle]
    exact ⟨_, rfl⟩
  | flag flag =>
    rw [take, accepts.settle, Except.bind]
    cases flag with
    | help | version => cases fits
    | verbose => exact ⟨_, rfl⟩
    | json =>
      have first : progress.json = false := by
        have json := accepts.json
        have once := Bool.toNat_le options.json
        rw [List.count_cons_self] at json
        rw [← Bool.toNat_eq_zero]
        omega
      rw [takeFlag, first]
      exact ⟨_, rfl⟩

theorem finish_eq_ok_iff (room : progress.operands.length ≤ 2)
    (bound : progress.verbosity ≤ verbosityLimit) :
    progress.finish = .ok options ↔ progress.Accepts [] options := by
  constructor
  · intro finished
    rw [finish] at finished
    rcases progress.settle_eq with settled | ⟨error, refused⟩
    · rw [settled, Except.bind] at finished
      split at finished
      next => cases finished
      next => cases finished
      next input output more operands =>
        cases finished
        obtain rfl : more = [] := by
          simpa [operands] using room
        refine ⟨by simp, by simpa using operands, ?_, ?_, by simp, by simp [bound]⟩
        · rintro rfl
          simp [settle, operands] at settled
        · rintro rfl
          cases input <;> simp [settle, operands] at settled
    · rw [refused] at finished
      cases finished
  · intro accepts
    obtain ⟨⟨input⟩, ⟨output⟩, json, verbosity⟩ := options
    have operands : progress.operands = [input, output] := by
      simpa using accepts.operands
    have sameJson : json = progress.json := by
      have counted : json.toNat = progress.json.toNat := accepts.json
      rw [Bool.eq_iff_iff, ← Bool.toNat_eq_one, ← Bool.toNat_eq_one, counted]
    have sameVerbosity : verbosity = progress.verbosity := by
      simpa [bound] using accepts.verbosity
    rw [finish, accepts.settle, Except.bind, operands, sameJson, sameVerbosity]

theorem run_eq_ok_iff (room : progress.operands.length ≤ 2)
    (bound : progress.verbosity ≤ verbosityLimit) :
    progress.run tokens = .ok options ↔ progress.Accepts tokens options := by
  induction tokens generalizing progress with
  | nil => exact finish_eq_ok_iff room bound
  | cons token tokens ih =>
    rw [run]
    cases taken : progress.take token with
    | error stop =>
      refine iff_of_false (by simp [Except.bind]) fun accepts => ?_
      obtain ⟨next, takenToo⟩ := accepts.exists_take
      cases taken.symm.trans takenToo
    | ok next =>
      rw [Except.bind, accepts_iff_of_take taken]
      -- At most two operands and a bounded verbosity is what every step keeps.
      rcases take_eq_ok taken with ⟨-, -, rfl⟩ | ⟨-, rfl⟩ | ⟨bytes, -, free, rfl⟩
      · exact ih room bound
      · exact ih room (Nat.min_le_left _ _)
      · exact ih (by simpa using free) bound

end Progress

end ElfCarve.Command
