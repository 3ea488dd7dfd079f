import Mathlib
import ElfCarve.Image

/-!
# The place of an image

What the search for the magic finds, and what follows for the image that is cut out there.

* `firstMagic?_eq_some_iff` and `firstMagic?_eq_none_iff` say that the search finds the first place
  of the magic and misses none.
* `carve?_eq_some` and `carve?_eq_none_iff` say the same of the image: it is a suffix of the data
  that begins with the magic, and there is none only in data without the magic.
* `carve?_image` says that an image is all that is carved out of itself.
-/

namespace ElfCarve

/-! ## The search -/

theorem room_of_prefix_drop {data : Bytes} {offset : Nat} (stands : magic <+: data.drop offset) :
    offset + 4 ≤ data.length := by
  have room := stands.length_le
  simp only [List.length_drop, magic, List.length_cons, List.length_nil] at room
  omega

theorem firstMagicFrom?_eq_some_iff {passed found : Nat} {data : Bytes} :
    firstMagicFrom? passed data = some found ↔
      ∃ offset, found = passed + offset ∧ magic <+: data.drop offset ∧
        ∀ earlier < offset, ¬ magic <+: data.drop earlier := by
  -- An offset into `b :: bs` is 0, where the search ends, or one more than an offset into `bs`.
  induction data generalizing passed with
  | nil => simp [firstMagicFrom?, magic]
  | cons b bs ih =>
    by_cases here : magic <+: b :: bs
    · rw [firstMagicFrom?, if_pos (List.isPrefixOf_iff_prefix.mpr here)]
      constructor
      · intro h
        cases h
        exact ⟨0, rfl, here, fun _ impossible => absurd impossible (Nat.not_lt_zero _)⟩
      · rintro ⟨offset, rfl, -, first⟩
        cases offset with
        | zero => rfl
        | succ offset => exact absurd here (first 0 (Nat.succ_pos offset))
    · rw [firstMagicFrom?, if_neg (mt List.isPrefixOf_iff_prefix.mp here), ih]
      constructor
      · rintro ⟨offset, rfl, stands, first⟩
        refine ⟨offset + 1, by omega, stands, fun earlier bound => ?_⟩
        cases earlier with
        | zero => exact here
        | succ earlier => exact first earlier (by omega)
      · rintro ⟨offset, rfl, stands, first⟩
        cases offset with
        | zero => exact absurd stands here
        | succ offset =>
          exact ⟨offset, by omega, stands, fun earlier bound => first (earlier + 1) (by omega)⟩

theorem firstMagicFrom?_eq_none_iff {passed : Nat} {data : Bytes} :
    firstMagicFrom? passed data = none ↔ ¬ magic <:+: data := by
  induction data generalizing passed with
  | nil => simp [firstMagicFrom?, magic]
  | cons b bs ih =>
    rw [firstMagicFrom?, List.infix_cons_iff, ← List.isPrefixOf_iff_prefix]
    split
    next here => simp [here]
    next elsewhere => simp [elsewhere, ih]

theorem firstMagic?_eq_some_iff {data : Bytes} {offset : Nat} :
    firstMagic? data = some offset ↔
      magic <+: data.drop offset ∧ ∀ earlier < offset, ¬ magic <+: data.drop earlier := by
  rw [firstMagic?, firstMagicFrom?_eq_some_iff]
  constructor
  · rintro ⟨_, rfl, stands, first⟩
    rw [Nat.zero_add]
    exact ⟨stands, first⟩
  · rintro ⟨stands, first⟩
    exact ⟨offset, (Nat.zero_add offset).symm, stands, first⟩

theorem firstMagic?_eq_none_iff {data : Bytes} : firstMagic? data = none ↔ ¬ magic <:+: data :=
  firstMagicFrom?_eq_none_iff

/-! ## The layout and the image -/

theorem prefix_drop_of_layout? {data : Bytes} {layout : Layout} (h : layout? data = some layout) :
    magic <+: data.drop layout.offset := by
  rw [layout?] at h
  split at h
  next bare =>
    cases h
    exact List.isPrefixOf_iff_prefix.mp bare
  next =>
    obtain ⟨offset, found, rfl⟩ := Option.map_eq_some_iff.mp h
    exact (firstMagic?_eq_some_iff.mp found).1

theorem pos_of_layout?_eq_padded {data : Bytes} {offset : Nat}
    (h : layout? data = some (.padded offset)) : 0 < offset := by
  have stands := prefix_drop_of_layout? h
  rw [layout?] at h
  split at h
  next => cases h
  next notBare =>
    -- A magic at offset 0 would have been told without a search.
    cases offset with
    | zero => exact absurd (List.isPrefixOf_iff_prefix.mpr stands) notBare
    | succ offset => exact Nat.succ_pos offset

theorem offset_le_length_of_layout? {data : Bytes} {layout : Layout}
    (h : layout? data = some layout) : layout.offset ≤ data.length := by
  have room := room_of_prefix_drop (prefix_drop_of_layout? h)
  omega

theorem layout?_eq_none_iff {data : Bytes} : layout? data = none ↔ ¬ magic <:+: data := by
  rw [layout?]
  split
  next bare =>
    simpa using (List.isPrefixOf_iff_prefix.mp bare).isInfix
  next => rw [Option.map_eq_none_iff, firstMagic?_eq_none_iff]

theorem carve?_eq_some {data image : Bytes} {layout : Layout}
    (h : carve? data = some (layout, image)) :
    layout? data = some layout ∧ image = data.drop layout.offset := by
  obtain ⟨found, located, pair⟩ := Option.map_eq_some_iff.mp h
  cases pair
  exact ⟨located, rfl⟩

theorem carve?_eq_none_iff {data : Bytes} : carve? data = none ↔ ¬ magic <:+: data := by
  rw [carve?, Option.map_eq_none_iff, layout?_eq_none_iff]

theorem prefix_of_carve? {data image : Bytes} {layout : Layout}
    (h : carve? data = some (layout, image)) : magic <+: image := by
  obtain ⟨located, rfl⟩ := carve?_eq_some h
  exact prefix_drop_of_layout? located

theorem suffix_of_carve? {data image : Bytes} {layout : Layout}
    (h : carve? data = some (layout, image)) : image <:+ data := by
  obtain ⟨-, rfl⟩ := carve?_eq_some h
  exact List.drop_suffix _ _

theorem length_add_of_carve? {data image : Bytes} {layout : Layout}
    (carved : carve? data = some (layout, image)) :
    layout.offset + image.length = data.length := by
  obtain ⟨located, rfl⟩ := carve?_eq_some carved
  have inside := offset_le_length_of_layout? located
  rw [List.length_drop]
  omega

theorem carve?_of_prefix {data : Bytes} (bare : magic <+: data) :
    carve? data = some (.bare, data) := by
  rw [carve?, layout?, if_pos (List.isPrefixOf_iff_prefix.mpr bare)]
  rfl

theorem carve?_image {data image : Bytes} {layout : Layout}
    (carved : carve? data = some (layout, image)) : carve? image = some (.bare, image) :=
  carve?_of_prefix (prefix_of_carve? carved)

end ElfCarve
