import ElfCarve.Proofs.Image.Search

/-!
# Padding and image

Data with an image in it is a padding followed by the image.  The padding is free of the magic, and
that alone makes the split unique: the magic does not begin anew within itself, so it cannot stand
across the place where padding and image meet, not even behind a padding that ends like the first
bytes of it.

* `firstMagic?_append_eq_length_iff` is the search of a padding followed by an image.
* `carve?_append_eq_some_iff` says that carving undoes just the paddings of this kind.
-/

namespace ElfCarve

variable {data p q : Bytes} {layout : Layout} {offset : Nat}

/-! ## The layout of a search -/

def Layout.ofOffset : Nat → Layout
  | 0 => .bare
  | offset + 1 => .padded (offset + 1)

@[simp] theorem Layout.offset_ofOffset (offset : Nat) : (ofOffset offset).offset = offset := by
  cases offset <;> rfl

@[simp] theorem Layout.ofOffset_eq_bare_iff : ofOffset offset = .bare ↔ offset = 0 := by
  cases offset <;> simp [ofOffset]

@[simp] theorem Layout.ofOffset_eq_padded_iff {padded : Nat} :
    ofOffset offset = .padded padded ↔ offset = padded ∧ 0 < padded := by
  cases offset <;> simp only [ofOffset, Layout.padded.injEq, reduceCtorEq, false_iff] <;> omega

theorem Layout.ofOffset_length (p : Bytes) :
    ofOffset p.length = if p = [] then .bare else .padded p.length := by
  cases p <;> rfl

/-- That data which begins with the magic is told at once makes no difference. -/
theorem layout?_eq_map_firstMagic? (data : Bytes) :
    layout? data = (firstMagic? data).map Layout.ofOffset := by
  cases located : layout? data with
  | none =>
    rw [layout?_eq_none_iff, ← firstMagic?_eq_none_iff] at located
    rw [located, Option.map_none]
  | some layout =>
    rw [layout?] at located
    split at located
    next bare =>
      cases located
      have here : firstMagic? data = some 0 :=
        firstMagic?_eq_some_iff.mpr ⟨List.isPrefixOf_iff_prefix.mp bare,
          fun _ impossible => absurd impossible (Nat.not_lt_zero _)⟩
      rw [here, Option.map_some, Layout.ofOffset]
    next notBare =>
      obtain ⟨offset, found, rfl⟩ := Option.map_eq_some_iff.mp located
      cases offset with
      | zero =>
        have bare := (firstMagic?_eq_some_iff.mp found).1
        exact absurd (List.isPrefixOf_iff_prefix.mpr bare) notBare
      | succ offset => rw [found, Option.map_some, Layout.ofOffset]

/-! ## Where padding and image meet -/

theorem head?_ne_of_suffix_magic {tail : Bytes} (isSuffix : tail <:+ magic) (filled : tail ≠ [])
    (proper : tail ≠ magic) : tail.head? ≠ magic.head? := by
  have checked : ∀ tail ∈ magic.tails, tail ≠ [] → tail ≠ magic → tail.head? ≠ magic.head? := by
    decide
  exact checked tail ((List.mem_tails tail magic).mpr isSuffix) filled proper

/-- A magic that begins before an image lies before it as a whole. -/
theorem prefix_of_prefix_append {before : Bytes} (filled : before ≠ [])
    (stands : magic <+: before ++ q) (image : magic <+: q) : magic <+: before := by
  rcases Nat.le_total magic.length before.length with fits | short
  · exact List.prefix_of_prefix_length_le stands (List.prefix_append before q) fits
  -- What is left of the magic where the image begins would begin like the magic.
  obtain ⟨left, whole⟩ : before <+: magic :=
    List.prefix_of_prefix_length_le (List.prefix_append before q) stands short
  by_cases nothing : left = []
  · rw [nothing, List.append_nil] at whole
    rw [whole]
  have begins : left.head? = magic.head? := by
    obtain ⟨rest, rfl⟩ : left <+: q := by
      rwa [← whole, List.prefix_append_right_inj] at stands
    obtain ⟨first, rest', rfl⟩ := List.exists_cons_of_ne_nil nothing
    obtain ⟨behind, magic_append⟩ := image
    exact (congrArg List.head? magic_append).symm
  have proper : left ≠ magic := by
    intro same
    rw [same] at whole
    exact filled (List.append_left_eq_self.mp whole)
  exact absurd begins (head?_ne_of_suffix_magic ⟨before, whole⟩ nothing proper)

theorem firstMagic?_append_eq_length_iff :
    firstMagic? (p ++ q) = some p.length ↔ magic <+: q ∧ ¬ magic <:+: p := by
  rw [firstMagic?_eq_some_iff, List.drop_left]
  refine and_congr_right fun image => ⟨fun first inside => ?_, fun free earlier bound stands => ?_⟩
  -- A magic inside the padding would be found before the image.
  · obtain ⟨front, back, rfl⟩ := inside
    refine first front.length ?_ ?_
    · simp [magic]
    · simp [List.append_assoc]
  · rw [List.drop_append_of_le_length (Nat.le_of_lt bound)] at stands
    have filled : p.drop earlier ≠ [] := by
      simpa [List.drop_eq_nil_iff] using bound
    have within := prefix_of_prefix_append filled stands image
    exact free (within.isInfix.trans (List.drop_suffix earlier p).isInfix)

/-! ## Carving a padding off -/

theorem carve?_eq_map_firstMagic? (data : Bytes) :
    carve? data =
      (firstMagic? data).map fun offset => (Layout.ofOffset offset, data.drop offset) := by
  rw [carve?, layout?_eq_map_firstMagic?, Option.map_map]
  congr 1
  funext offset
  simp

/-- A padding is carved off just as it was put in front, as long as it is free of the magic. -/
theorem carve?_append_eq_some_iff :
    carve? (p ++ q) = some (layout, q) ↔
      layout = .ofOffset p.length ∧ magic <+: q ∧ ¬ magic <:+: p := by
  rw [← firstMagic?_append_eq_length_iff, carve?_eq_map_firstMagic?, Option.map_eq_some_iff]
  constructor
  · rintro ⟨offset, found, pair⟩
    obtain ⟨rfl, rest⟩ := Prod.mk.inj pair
    -- The image is all that is left, so what was passed before it has the length of the padding.
    have inside : offset ≤ (p ++ q).length := by
      have room := room_of_prefix_drop (firstMagic?_eq_some_iff.mp found).1
      omega
    have length := congrArg List.length rest
    rw [List.length_drop, List.length_append] at length
    rw [List.length_append] at inside
    obtain rfl : offset = p.length := by omega
    exact ⟨rfl, found⟩
  · rintro ⟨rfl, found⟩
    exact ⟨p.length, found, by rw [List.drop_left]⟩

example : carve? ([0x7f, 0x45, 0x4c] ++ magic) = some (.padded 3, magic) := by
  decide

theorem padding_append (p q : Bytes) : padding (.ofOffset p.length) (p ++ q) = p := by
  rw [padding, Layout.offset_ofOffset, List.take_left]

theorem append_of_carve? (carved : carve? data = some (layout, q)) :
    data = padding layout data ++ q := by
  obtain ⟨-, rfl⟩ := carve?_eq_some carved
  exact (List.take_append_drop layout.offset data).symm

/-- Carving undoes the putting of a padding in front of an image, for just those paddings that are
free of the magic, and the layout tells the length of the padding.  Where it finds nothing the data
cannot be split in this way, and where it finds something there is no other split. -/
theorem carve?_finds_split :
    (∀ p q layout, carve? (p ++ q) = some (layout, q) ∧ layout.offset = p.length ↔
      (magic <+: q ∧ ¬ magic <:+: p) ∧ layout = if p = [] then .bare else .padded p.length) ∧
    (∀ data, carve? data = none ↔ ¬ ∃ p q, data = p ++ q ∧ magic <+: q ∧ ¬ magic <:+: p) ∧
    ∀ data p q, (data = p ++ q ∧ magic <+: q ∧ ¬ magic <:+: p) ↔
      ∃ layout, carve? data = some (layout, q) ∧ p = padding layout data := by
  have carved_split {data q : Bytes} {layout : Layout} (carved : carve? data = some (layout, q)) :
      data = padding layout data ++ q ∧ magic <+: q ∧ ¬ magic <:+: padding layout data := by
    have whole := append_of_carve? carved
    rw [whole] at carved
    exact ⟨whole, (carve?_append_eq_some_iff.mp carved).2⟩
  refine ⟨fun p q layout => ?_, fun data => ?_, fun data p q => ?_⟩
  · rw [carve?_append_eq_some_iff, ← Layout.ofOffset_length]
    constructor
    · rintro ⟨⟨layout_eq, free⟩, -⟩
      exact ⟨free, layout_eq⟩
    · rintro ⟨free, rfl⟩
      exact ⟨⟨rfl, free⟩, Layout.offset_ofOffset p.length⟩
  · constructor
    · rintro nothing ⟨p, q, rfl, free⟩
      rw [carve?_append_eq_some_iff.mpr ⟨rfl, free⟩] at nothing
      cases nothing
    · intro noSplit
      cases carved : carve? data with
      | none => rfl
      | some found => exact absurd ⟨_, _, carved_split carved⟩ noSplit
  · constructor
    · rintro ⟨rfl, free⟩
      refine ⟨_, carve?_append_eq_some_iff.mpr ⟨rfl, free⟩, ?_⟩
      rw [padding, Layout.offset_ofOffset, List.take_left]
    · rintro ⟨layout, carved, rfl⟩
      exact carved_split carved

end ElfCarve
