import Mathlib
import ElfCarve.Text.Utf8

/-!
# Text is read as it is written

Reading bytes as UTF-8 undoes writing text, and bytes that are read as text are just what is written
for it.  So there is one way to write a text, and bytes are either that or no text at all.

* `Pending.Ends` says which bytes complete a sequence, and `shift` how they add to its code.
* `exists_ends_of_char` and `exists_char_of_ends` match characters and completed sequences.
* `decode?_eq_some_iff` is the result.
-/

namespace ElfCarve.Utf8

variable {p : Pending} {lead first : UInt8} {tail rest bs : Bytes} {c : Char}

/-! ## Sequences -/

/-- A code followed by the bits of a byte.  It is irreducible, for its subtraction is a long way to
unfold. -/
@[irreducible] def shift (code : Nat) (b : UInt8) : Nat :=
  code * 64 + (b.toNat - 0x80)

theorem extend_eq_shift (p : Pending) (b : UInt8) : p.extend b = shift p.code b := by
  unfold shift
  exact Eq.refl (p.code * 64 + (b.toNat - 0x80))

/-- Bytes that complete a sequence: one within its bounds, and as many behind it as must follow. -/
structure Pending.Ends (p : Pending) (first : UInt8) (tail : Bytes) : Prop where
  admitted : p.admits first = true
  length : tail.length = p.more
  continues : ∀ b ∈ tail, 0x80 ≤ b ∧ b ≤ 0xbf

theorem piecesFrom_of_ends (ends : p.Ends first tail) (rest : Bytes) :
    piecesFrom (some p) (first :: tail ++ rest) =
      some (Char.ofNat ((first :: tail).foldl shift p.code)) :: piecesFrom none rest := by
  obtain ⟨admitted, length, continues⟩ := ends
  induction tail generalizing p first with
  | nil =>
    obtain ⟨code, more, low, high⟩ := p
    subst length
    rw [List.cons_append, piecesFrom, step, if_pos admitted]
    simp [extend_eq_shift]
  | cons second tail ih =>
    obtain ⟨code, more, low, high⟩ := p
    subst length
    obtain ⟨inBounds, continuesBehind⟩ := List.forall_mem_cons.mp continues
    have admittedNext : Pending.admits ⟨shift code first, tail.length, 0x80, 0xbf⟩ second := by
      simp [Pending.admits, inBounds]
    have onward := ih admittedNext rfl continuesBehind
    rw [List.cons_append, piecesFrom, step, if_pos admitted]
    simp only [List.length_cons, extend_eq_shift, List.nil_append]
    rw [onward]
    rfl

theorem exists_ends_of_all_isSome (wellFormed : (piecesFrom (some p) bs).all Option.isSome) :
    ∃ first tail rest, bs = first :: tail ++ rest ∧ p.Ends first tail := by
  induction bs generalizing p with
  | nil => simp [piecesFrom] at wellFormed
  | cons first bs ih =>
    by_cases admitted : p.admits first
    · obtain ⟨code, more, low, high⟩ := p
      cases more with
      | zero => exact ⟨first, [], bs, rfl, admitted, rfl, nofun⟩
      | succ more =>
        rw [piecesFrom, step, if_pos admitted] at wellFormed
        obtain ⟨second, tail, rest, rfl, inBounds, length, continues⟩ := ih wellFormed
        refine ⟨first, second :: tail, rest, rfl, admitted, congrArg (· + 1) length, ?_⟩
        refine List.forall_mem_cons.mpr ⟨?_, continues⟩
        simpa [Pending.admits] using inBounds
    · rw [piecesFrom, step, if_neg admitted] at wellFormed
      simp at wellFormed

/-! ## The bytes of a sequence -/

/-- The byte that carries six bits of a code behind the lead. -/
def continuation (digit : Nat) : UInt8 :=
  .ofNat (digit + 0x80)

theorem continuation_bounds : ∀ d < 64, 0x80 ≤ continuation d ∧ continuation d ≤ 0xbf := by
  decide +kernel

theorem exists_continuation {b : UInt8} (bounds : 0x80 ≤ b ∧ b ≤ 0xbf) :
    ∃ d < 64, b = continuation d := by
  obtain ⟨low, high⟩ := bounds
  obtain ⟨d, toNat⟩ := Nat.exists_eq_add_of_le' (UInt8.le_iff_toNat_le.mp low)
  change b.toNat = d + 0x80 at toNat
  refine ⟨d, ?_, ?_⟩
  · have below : b.toNat ≤ 0xbf := UInt8.le_iff_toNat_le.mp high
    omega
  · rw [continuation, ← toNat, UInt8.ofNat_toNat]

theorem shift_continuation {d : Nat} (code : Nat) (bound : d < 64) :
    shift code (continuation d) = code * 64 + d := by
  have toNat : (continuation d).toNat = d + 0x80 :=
    UInt8.toNat_ofNat_of_lt' (show d + 0x80 < 256 by omega)
  unfold shift
  rw [toNat, Nat.add_sub_cancel]

theorem lead_cases : ∀ n < 256, (Pending.ofLead? (.ofNat n)).isSome →
    (∃ k < 32, 2 ≤ k ∧ n = k + 0xc0) ∨ (∃ k < 16, n = k + 0xe0) ∨ ∃ k < 5, n = k + 0xf0 := by
  decide +kernel

/-- Whatever a sequence begins with, a byte that is no continuation cannot come next. -/
theorem admits_bounds : ∀ n < 256, ∀ p, Pending.ofLead? (.ofNat n) = some p →
    0x80 ≤ p.low ∧ p.high ≤ 0xbf := by
  have table : ∀ n < 256, (Pending.ofLead? (.ofNat n)).all fun p =>
      decide (0x80 ≤ p.low ∧ p.high ≤ 0xbf) := by
    decide +kernel
  intro n bound p isLead
  have here := table n bound
  rwa [isLead, Option.all_some, decide_eq_true_eq] at here

theorem ofLead?_two : ∀ k < 32, 2 ≤ k →
    Pending.ofLead? (.ofNat (k + 0xc0)) = some ⟨k, 0, 0x80, 0xbf⟩ := by
  decide +kernel

-- The exceptions among the leads keep out overlong forms and, for three bytes, the surrogates, or
-- for four bytes what lies beyond the last character.
theorem ofLead?_three : ∀ k < 16, ∃ p, Pending.ofLead? (.ofNat (k + 0xe0)) = some p ∧
    p.code = k ∧ p.more = 1 ∧
    ∀ d < 64, p.admits (continuation d) = true ↔ (k = 0 → 32 ≤ d) ∧ (k = 13 → d < 32) := by
  have bounds : ∀ k < 16, ∀ d < 64,
      Pending.admits ⟨k, 1, if k = 0 then 0xa0 else 0x80, if k = 13 then 0x9f else 0xbf⟩
        (continuation d) = true ↔ (k = 0 → 32 ≤ d) ∧ (k = 13 → d < 32) := by
    decide +kernel
  have leads : ∀ k < 16, Pending.ofLead? (.ofNat (k + 0xe0)) =
      some ⟨k, 1, if k = 0 then 0xa0 else 0x80, if k = 13 then 0x9f else 0xbf⟩ := by
    decide +kernel
  exact fun k bound => ⟨_, leads k bound, rfl, rfl, bounds k bound⟩

theorem ofLead?_four : ∀ k < 5, ∃ p, Pending.ofLead? (.ofNat (k + 0xf0)) = some p ∧
    p.code = k ∧ p.more = 2 ∧
    ∀ d < 64, p.admits (continuation d) = true ↔ (k = 0 → 16 ≤ d) ∧ (k = 4 → d < 16) := by
  have bounds : ∀ k < 5, ∀ d < 64,
      Pending.admits ⟨k, 2, if k = 0 then 0x90 else 0x80, if k = 4 then 0x8f else 0xbf⟩
        (continuation d) = true ↔ (k = 0 → 16 ≤ d) ∧ (k = 4 → d < 16) := by
    decide +kernel
  have leads : ∀ k < 5, Pending.ofLead? (.ofNat (k + 0xf0)) =
      some ⟨k, 2, if k = 0 then 0x90 else 0x80, if k = 4 then 0x8f else 0xbf⟩ := by
    decide +kernel
  exact fun k bound => ⟨_, leads k bound, rfl, rfl, bounds k bound⟩

/-! ## The bytes of a character -/

theorem encodeChar_two {k d : Nat} (lead : k < 32) (least : 2 ≤ k) (last : d < 64)
    (toNat : c.toNat = k * 64 + d) :
    String.utf8EncodeChar c = [.ofNat (k + 0xc0), continuation d] := by
  change c.val.toNat = _ at toNat
  rw [String.utf8EncodeChar, if_neg (by omega), if_pos (by omega)]
  unfold continuation
  congr <;> omega

theorem encodeChar_three {k d e : Nat} (lead : k < 16) (second : d < 64) (last : e < 64)
    (least : 0x800 ≤ c.toNat) (toNat : c.toNat = (k * 64 + d) * 64 + e) :
    String.utf8EncodeChar c = [.ofNat (k + 0xe0), continuation d, continuation e] := by
  change c.val.toNat = _ at toNat
  change 0x800 ≤ c.val.toNat at least
  rw [String.utf8EncodeChar, if_neg (by omega), if_neg (by omega), if_pos (by omega)]
  unfold continuation
  congr <;> omega

theorem encodeChar_four {k d e f : Nat} (lead : k < 5) (second : d < 64) (third : e < 64)
    (last : f < 64) (least : 0x10000 ≤ c.toNat)
    (toNat : c.toNat = ((k * 64 + d) * 64 + e) * 64 + f) :
    String.utf8EncodeChar c =
      [.ofNat (k + 0xf0), continuation d, continuation e, continuation f] := by
  change c.val.toNat = _ at toNat
  change 0x10000 ≤ c.val.toNat at least
  rw [String.utf8EncodeChar, if_neg (by omega), if_neg (by omega), if_neg (by omega)]
  unfold continuation
  congr <;> omega

/-- A character beyond ASCII is written as a lead and a sequence that comes to its code. -/
theorem exists_ends_of_char (notAscii : 0x80 ≤ c.toNat) :
    ∃ lead p first tail, String.utf8EncodeChar c = lead :: first :: tail ∧
      Pending.ofLead? lead = some p ∧ p.Ends first tail ∧
      (first :: tail).foldl shift p.code = c.toNat := by
  have valid : c.toNat < 0xd800 ∨ 0xdfff < c.toNat ∧ c.toNat < 0x110000 := c.valid
  -- The code is cut into digits of six bits; that it is a character keeps within the exceptions.
  by_cases two : c.toNat < 0x800
  · obtain ⟨k, d, lead, least, last, toNat⟩ :
        ∃ k d, k < 32 ∧ 2 ≤ k ∧ d < 64 ∧ c.toNat = k * 64 + d :=
      ⟨c.toNat / 64, c.toNat % 64, by omega, by omega, by omega, by omega⟩
    refine ⟨_, _, _, _, encodeChar_two lead least last toNat, ofLead?_two k lead least, ?_, ?_⟩
    · exact ⟨by simp [Pending.admits, continuation_bounds d last], rfl, nofun⟩
    · simp [shift_continuation, last, toNat]
  by_cases three : c.toNat < 0x10000
  · obtain ⟨k, d, e, lead, second, last, toNat⟩ :
        ∃ k d e, k < 16 ∧ d < 64 ∧ e < 64 ∧ c.toNat = (k * 64 + d) * 64 + e :=
      ⟨c.toNat / 64 / 64, c.toNat / 64 % 64, c.toNat % 64, by omega, by omega, by omega, by omega⟩
    obtain ⟨p, isLead, code, more, admits⟩ := ofLead?_three k lead
    refine ⟨_, p, _, _, encodeChar_three lead second last (by omega) toNat, isLead, ?_, ?_⟩
    · exact ⟨(admits d second).mpr (by omega), more.symm, by simp [continuation_bounds e last]⟩
    · simp [shift_continuation, second, last, toNat, code]
  · obtain ⟨k, d, e, f, lead, second, third, last, toNat⟩ : ∃ k d e f, k < 5 ∧ d < 64 ∧ e < 64 ∧
        f < 64 ∧ c.toNat = ((k * 64 + d) * 64 + e) * 64 + f :=
      ⟨c.toNat / 64 / 64 / 64, c.toNat / 64 / 64 % 64, c.toNat / 64 % 64, c.toNat % 64, by omega,
        by omega, by omega, by omega, by omega⟩
    obtain ⟨p, isLead, code, more, admits⟩ := ofLead?_four k lead
    refine ⟨_, p, _, _, encodeChar_four lead second third last (by omega) toNat, isLead, ?_, ?_⟩
    · refine ⟨(admits d second).mpr (by omega), more.symm, ?_⟩
      simp [continuation_bounds e third, continuation_bounds f last]
    · simp [shift_continuation, second, third, last, toNat, code]

theorem exists_char {n : Nat} (valid : n < 0xd800 ∨ 0xdfff < n ∧ n < 0x110000) :
    ∃ c : Char, c.toNat = n :=
  ⟨Char.ofNat n, by rw [Char.toNat_ofNat, if_pos valid]⟩

theorem exists_char_of_ends (isLead : Pending.ofLead? lead = some p) (ends : p.Ends first tail) :
    ∃ c : Char, String.utf8EncodeChar c = lead :: first :: tail ∧
      (first :: tail).foldl shift p.code = c.toNat := by
  obtain ⟨admitted, length, continues⟩ := ends
  rw [← UInt8.ofNat_toNat (x := lead)] at isLead ⊢
  -- The first byte behind the lead is a continuation in any case, and more is asked of it for some.
  have bounds := admits_bounds _ lead.toNat_lt p isLead
  obtain ⟨low, high⟩ : p.low ≤ first ∧ first ≤ p.high := by simpa [Pending.admits] using admitted
  obtain ⟨d, second, rfl⟩ := exists_continuation
    ⟨UInt8.le_trans bounds.1 low, UInt8.le_trans high bounds.2⟩
  have someLead : (Pending.ofLead? (.ofNat lead.toNat)).isSome := by
    rw [isLead]
    rfl
  rcases lead_cases _ lead.toNat_lt someLead with
    ⟨k, leads, least, isTwo⟩ | ⟨k, leads, isThree⟩ | ⟨k, leads, isFour⟩
  · rw [isTwo] at isLead ⊢
    cases isLead.symm.trans (ofLead?_two k leads least)
    obtain rfl := List.length_eq_zero_iff.mp length
    obtain ⟨c, toNat⟩ := exists_char (n := k * 64 + d) (by omega)
    exact ⟨c, encodeChar_two leads least second toNat, by simp [shift_continuation, second, toNat]⟩
  · rw [isThree] at isLead ⊢
    obtain ⟨q, isSame, code, more, admits⟩ := ofLead?_three k leads
    cases isLead.symm.trans isSame
    obtain ⟨low, high⟩ := (admits d second).mp admitted
    obtain ⟨last, rfl⟩ := List.length_eq_one_iff.mp (length.trans more)
    obtain ⟨e, third, rfl⟩ := exists_continuation (continues last (by simp))
    obtain ⟨c, toNat⟩ := exists_char (n := (k * 64 + d) * 64 + e) (by omega)
    refine ⟨c, encodeChar_three leads second third (by omega) toNat, ?_⟩
    simp [shift_continuation, second, third, toNat, code]
  · rw [isFour] at isLead ⊢
    obtain ⟨q, isSame, code, more, admits⟩ := ofLead?_four k leads
    cases isLead.symm.trans isSame
    obtain ⟨low, high⟩ := (admits d second).mp admitted
    obtain ⟨next, last, rfl⟩ := List.length_eq_two.mp (length.trans more)
    obtain ⟨e, third, rfl⟩ := exists_continuation (continues next (by simp))
    obtain ⟨f, fourth, rfl⟩ := exists_continuation (continues last (by simp))
    obtain ⟨c, toNat⟩ := exists_char (n := ((k * 64 + d) * 64 + e) * 64 + f) (by omega)
    refine ⟨c, encodeChar_four leads second third fourth (by omega) toNat, ?_⟩
    simp [shift_continuation, second, third, fourth, toNat, code]

/-! ## Texts -/

theorem encodeChar_of_ascii (isAscii : c.toNat < 0x80) :
    String.utf8EncodeChar c = [.ofNat c.toNat] := by
  change c.val.toNat < 0x80 at isAscii
  rw [String.utf8EncodeChar, if_pos (by omega)]
  rfl

theorem pieces_of_ascii {b : UInt8} (isAscii : b < 0x80) (rest : Bytes) :
    pieces (b :: rest) = some (Char.ofNat b.toNat) :: pieces rest := by
  rw [pieces, piecesFrom, step, atRest, if_pos isAscii]
  rfl

theorem pieces_of_lead (isLead : Pending.ofLead? lead = some p) (rest : Bytes) :
    pieces (lead :: rest) = piecesFrom (some p) rest := by
  have notAscii : ¬ lead < 0x80 := by
    intro isAscii
    rw [Pending.ofLead?, if_pos (UInt8.lt_trans isAscii (by decide))] at isLead
    cases isLead
  rw [pieces, piecesFrom, step, atRest, if_neg notAscii, isLead]
  rfl

theorem pieces_encodeChar (c : Char) (rest : Bytes) :
    pieces (String.utf8EncodeChar c ++ rest) = some c :: pieces rest := by
  by_cases isAscii : c.toNat < 0x80
  · have toNat : (UInt8.ofNat c.toNat).toNat = c.toNat :=
      UInt8.toNat_ofNat_of_lt' (show c.toNat < 256 by omega)
    have below : UInt8.ofNat c.toNat < 0x80 := by
      rw [UInt8.lt_iff_toNat_lt, toNat]
      exact isAscii
    rw [encodeChar_of_ascii isAscii, List.singleton_append, pieces_of_ascii below, toNat,
      Char.ofNat_toNat]
  · obtain ⟨lead, p, first, tail, written, isLead, ends, total⟩ :=
      exists_ends_of_char (Nat.le_of_not_lt isAscii)
    have read := piecesFrom_of_ends ends rest
    rw [total, Char.ofNat_toNat] at read
    rw [written, List.cons_append, pieces_of_lead isLead, read]
    rfl

theorem pieces_encode (text : String) : pieces (encode text) = text.toList.map some := by
  rw [encode]
  induction text.toList with
  | nil => rfl
  | cons c cs ih => rw [List.flatMap_cons, pieces_encodeChar, ih, List.map_cons]

theorem exists_char_of_all_isSome {b : UInt8} (wellFormed : (pieces (b :: bs)).all Option.isSome) :
    ∃ c rest, b :: bs = String.utf8EncodeChar c ++ rest := by
  by_cases isAscii : b < 0x80
  · obtain ⟨c, toNat⟩ := exists_char (n := b.toNat) (.inl (b.toNat_lt.trans (by decide)))
    refine ⟨c, bs, ?_⟩
    rw [encodeChar_of_ascii (toNat ▸ isAscii), toNat, UInt8.ofNat_toNat]
    rfl
  · cases isLead : Pending.ofLead? b with
    | none => simp [pieces, piecesFrom, step, atRest, isAscii, isLead] at wellFormed
    | some p =>
      rw [pieces_of_lead isLead] at wellFormed
      obtain ⟨first, tail, rest, rfl, ends⟩ := exists_ends_of_all_isSome wellFormed
      obtain ⟨c, written, -⟩ := exists_char_of_ends isLead ends
      exact ⟨c, rest, by rw [written]; rfl⟩

theorem exists_text_of_all_isSome (wellFormed : (pieces bs).all Option.isSome) :
    ∃ text, bs = encode text := by
  -- A character takes at least one byte, so what is behind it is shorter.
  induction size : bs.length using Nat.strong_induction_on generalizing bs with
  | _ size ih =>
    cases bs with
    | nil => exact ⟨"", rfl⟩
    | cons b bs =>
      obtain ⟨c, rest, whole⟩ := exists_char_of_all_isSome wellFormed
      rw [whole, pieces_encodeChar, List.all_cons, Bool.and_eq_true] at wellFormed
      have filled := List.length_pos_of_ne_nil (String.utf8EncodeChar_ne_nil (c := c))
      rw [whole, List.length_append] at size
      obtain ⟨text, rfl⟩ := ih rest.length (by omega) wellFormed.2 rfl
      refine ⟨String.ofList (c :: text.toList), ?_⟩
      rw [whole, encode, encode, String.toList_ofList, List.flatMap_cons]

theorem decode?_encode (text : String) : decode? (encode text) = some text := by
  simp [decode?, pieces_encode]

/-- Bytes are read as a text if and only if they are what is written for it. -/
theorem decode?_eq_some_iff {text : String} : decode? bs = some text ↔ bs = encode text := by
  constructor
  · intro read
    have wellFormed : (pieces bs).all Option.isSome := by
      by_contra illFormed
      rw [decode?, if_neg illFormed] at read
      cases read
    obtain ⟨written, rfl⟩ := exists_text_of_all_isSome wellFormed
    rw [decode?_encode, Option.some_inj] at read
    rw [read]
  · rintro rfl
    exact decode?_encode text

end ElfCarve.Utf8
