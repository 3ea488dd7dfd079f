import ElfCarve.Proofs.Image.Split

/-!
# Searching window by window

A window is what a search sees of the data at one offset: four bytes, or fewer where the data ends.
The search finds the first window that is the magic.  A window that lies in a first piece of the
data does not change when more data follows, and every other one begins in the last three bytes of
that piece or behind it, so a search can go on from there.

* `firstMagic?_first_window` is the search in terms of windows, and the layout in terms of the
  search.
* `firstMagic?_append` is the search over data that comes in two pieces.
-/

namespace ElfCarve

variable {a b data : Bytes} {offset : Nat}

/-- The bytes at an offset that are compared with the magic. -/
def window (data : Bytes) (offset : Nat) : Bytes :=
  (data.drop offset).take magic.length

theorem window_eq_magic_iff : window data offset = magic ↔ magic <+: data.drop offset := by
  rw [window, List.prefix_iff_eq_take, eq_comm]

theorem exists_window_iff : (∃ offset, window data offset = magic) ↔ magic <:+: data := by
  simp only [window_eq_magic_iff]
  constructor
  · rintro ⟨offset, stands⟩
    exact stands.isInfix.trans (List.drop_suffix offset data).isInfix
  · rintro ⟨before, behind, rfl⟩
    refine ⟨before.length, ?_⟩
    rw [List.append_assoc, List.drop_left]
    exact List.prefix_append magic behind

/-! ## The search and the layout -/

/-- The search finds the first window that is the magic, at whatever offset, and finds none only
where no window is.  That data which begins with the magic is told without a search agrees with
this, and the image and the padding before it are both within the data. -/
theorem firstMagic?_first_window (data : Bytes) :
    (∀ offset, firstMagic? data = some offset ↔
      offset + 4 ≤ data.length ∧ window data offset = magic ∧
        ∀ earlier < offset, window data earlier ≠ magic) ∧
    (firstMagic? data = none ↔ ∀ offset, window data offset ≠ magic) ∧
    (data.length < 4 → firstMagic? data = none) ∧
    (layout? data = some .bare ↔ firstMagic? data = some 0) ∧
    (∀ offset, layout? data = some (.padded offset) ↔ firstMagic? data = some offset ∧ 0 < offset) ∧
    (layout? data = none ↔ firstMagic? data = none) ∧
    layout? data ≠ some (.padded 0) ∧
    ∀ layout image, carve? data = some (layout, image) →
      layout.offset ≤ data.length ∧ (padding layout data).length = layout.offset ∧
        layout.offset + image.length = data.length ∧ padding layout data ++ image = data := by
  have absent : firstMagic? data = none ↔ ∀ offset, window data offset ≠ magic := by
    rw [firstMagic?_eq_none_iff, ← exists_window_iff, not_exists]
  rw [layout?_eq_map_firstMagic?]
  refine ⟨fun offset => ?_, absent, fun short => ?_, ?_, fun offset => ?_,
    Option.map_eq_none_iff, ?_, ?_⟩
  · simp only [firstMagic?_eq_some_iff, ne_eq, window_eq_magic_iff]
    constructor
    · rintro ⟨stands, first⟩
      exact ⟨room_of_prefix_drop stands, stands, first⟩
    · rintro ⟨-, stands, first⟩
      exact ⟨stands, first⟩
  · rw [absent]
    intro offset stands
    have room := room_of_prefix_drop (window_eq_magic_iff.mp stands)
    omega
  · simp
  · simp [and_comm]
  · simp
  · intro layout image carved
    have whole := append_of_carve? carved
    have lengths := length_add_of_carve? carved
    refine ⟨by omega, ?_, lengths, whole.symm⟩
    rw [padding, List.length_take]
    omega

/-! ## Two pieces -/

theorem window_append_of_le (within : offset + 4 ≤ a.length) :
    window (a ++ b) offset = window a offset := by
  have enough : magic.length ≤ (a.drop offset).length := by
    simp only [magic, List.length_drop, List.length_cons, List.length_nil]
    omega
  rw [window, window, List.drop_append_of_le_length (by omega),
    List.take_append_of_le_length enough]

theorem firstMagic?_append_of_eq_some (found : firstMagic? a = some offset) :
    firstMagic? (a ++ b) = some offset := by
  simp only [firstMagic?_eq_some_iff, ← window_eq_magic_iff] at found ⊢
  obtain ⟨stands, first⟩ := found
  have room := room_of_prefix_drop (window_eq_magic_iff.mp stands)
  -- Every window up to the one that was found lies in the first piece.
  refine ⟨by rwa [window_append_of_le room], fun earlier bound => ?_⟩
  rw [window_append_of_le (by omega)]
  exact first earlier bound

theorem firstMagicFrom?_append_of_passed {passed : Nat}
    (clear : ∀ offset < a.length, window (a ++ b) offset ≠ magic) :
    firstMagicFrom? passed (a ++ b) = firstMagicFrom? (passed + a.length) b := by
  induction a generalizing passed with
  | nil => rfl
  | cons byte rest ih =>
    have notHere : ¬ magic <+: byte :: (rest ++ b) := by
      have first := clear 0 (by simp)
      rwa [ne_eq, window_eq_magic_iff] at first
    have notLater : ∀ offset < rest.length, window (rest ++ b) offset ≠ magic := by
      intro offset bound
      exact clear (offset + 1) (by simpa using bound)
    rw [List.cons_append, firstMagicFrom?, if_neg (mt List.isPrefixOf_iff_prefix.mp notHere),
      ih notLater, List.length_cons]
    congr 1
    omega

theorem firstMagicFrom?_eq_map (passed : Nat) (data : Bytes) :
    firstMagicFrom? passed data = (firstMagic? data).map (· + passed) := by
  refine Option.ext fun found => ?_
  rw [firstMagicFrom?_eq_some_iff, Option.map_eq_some_iff]
  simp only [firstMagic?_eq_some_iff]
  constructor
  · rintro ⟨offset, rfl, stands⟩
    exact ⟨offset, stands, Nat.add_comm offset passed⟩
  · rintro ⟨offset, stands, rfl⟩
    exact ⟨offset, Nat.add_comm offset passed, stands⟩

/-- What was found in a first piece stays found when more data follows.  Where nothing was found,
the search goes on from the last three bytes of the piece, and the rest of it can be forgotten. -/
theorem firstMagic?_append (a b : Bytes) :
    let kept := a.rtake 3
    kept <:+ a ∧ kept.length = min 3 a.length ∧
    (∀ offset, firstMagic? a = some offset → firstMagic? (a ++ b) = some offset) ∧
    (firstMagic? a = none →
      firstMagic? (a ++ b) =
        (firstMagic? (kept ++ b)).map (· + (a.length - kept.length)) ∧
      (firstMagic? (a ++ b) = none ↔ firstMagic? (kept ++ b) = none)) := by
  intro kept
  have length : kept.length = min 3 a.length := by
    simp only [kept, List.rtake, List.length_drop]
    omega
  refine ⟨List.drop_suffix _ a, length, fun _ => firstMagic?_append_of_eq_some, fun absent => ?_⟩
  have whole : a.rdrop 3 ++ kept = a := List.take_append_drop _ a
  have forgotten : (a.rdrop 3).length = a.length - kept.length := by
    simp only [List.rdrop, List.length_take]
    omega
  -- A magic that begins in the bytes forgotten would end in the first piece.
  have passed : ∀ offset < (a.rdrop 3).length,
      window (a.rdrop 3 ++ (kept ++ b)) offset ≠ magic := by
    intro offset bound stands
    rw [← List.append_assoc, whole, window_append_of_le (by omega)] at stands
    rw [firstMagic?_eq_none_iff, ← exists_window_iff] at absent
    exact absent ⟨offset, stands⟩
  have searched : firstMagic? (a ++ b) =
      (firstMagic? (kept ++ b)).map (· + (a.length - kept.length)) := by
    calc firstMagic? (a ++ b)
        = firstMagic? (a.rdrop 3 ++ (kept ++ b)) := by rw [← List.append_assoc, whole]
      _ = firstMagicFrom? (0 + (a.rdrop 3).length) (kept ++ b) :=
          firstMagicFrom?_append_of_passed passed
      _ = (firstMagic? (kept ++ b)).map (· + (a.length - kept.length)) := by
          rw [firstMagicFrom?_eq_map, Nat.zero_add, forgotten]
  exact ⟨searched, by rw [searched, Option.map_eq_none_iff]⟩

example : firstMagic? ([0, 0x7f, 0x45] ++ [0x4c, 0x46]) = some 1 := by
  decide

end ElfCarve
