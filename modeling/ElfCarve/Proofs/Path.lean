import Mathlib
import ElfCarve.Path

/-!
# The beginnings of a path

The paths above a path are what is left of it when segments are cut off at its end, so each of them
is the beginning of its bytes.
-/

namespace ElfCarve.Path

/-- A path begins another one if it is the other one or lies above it. -/
def Begins (q p : Path) : Prop :=
  q = p ∨ q ∈ p.parents

/-- The beginnings of the path that another path lies in, the longest first. -/
def surroundings (p : Path) : List Path :=
  match p.parent? with
  | none => []
  | some parent => parent :: parent.parents

theorem begins_of_mem_surroundings {p q : Path} (around : q ∈ p.surroundings) :
    ∃ parent, p.parent? = some parent ∧ q.Begins parent := by
  unfold surroundings at around
  split at around
  next => cases around
  next parent lies => exact ⟨parent, lies, List.mem_cons.mp around⟩

/-! ## The bytes of a beginning -/

theorem prefix_intercalate {segments more : List Bytes} (segments_ne : segments ≠ [])
    (isPrefix : segments <+: more) :
    [Bytes.slash].intercalate segments <+: [Bytes.slash].intercalate more := by
  obtain ⟨left, rfl⟩ := isPrefix
  induction segments with
  | nil => exact absurd rfl segments_ne
  | cons first rest ih =>
    by_cases single : rest = []
    · subst single
      by_cases none_left : left = []
      · simp [none_left]
      · rw [List.singleton_append, List.intercalate_cons_of_ne_nil none_left, List.append_assoc,
          List.intercalate_singleton]
        exact List.prefix_append _ _
    · rw [List.cons_append, List.intercalate_cons_of_ne_nil single,
        List.intercalate_cons_of_ne_nil (by simp [single])]
      exact List.prefix_append_right_inj _ |>.mpr (ih single)

theorem prefix_ofReversed {first : Bytes} {rest more : List Bytes} (more_ne : more ≠ [])
    (isSuffix : rest <:+ more) :
    (ofReversed first rest).bytes <+: [Bytes.slash].intercalate (first :: more.reverse) := by
  have join : [Bytes.slash].intercalate (first :: rest.reverse) <+:
      [Bytes.slash].intercalate (first :: more.reverse) := by
    refine prefix_intercalate (List.cons_ne_nil _ _) ?_
    exact List.cons_prefix_cons.mpr ⟨rfl, List.reverse_prefix.mpr isSuffix⟩
  unfold ofReversed
  split
  · -- The root, of which the joined segments have the slash behind the empty first one.
    rw [List.intercalate_cons_of_ne_nil (by simpa using more_ne)]
    exact List.prefix_append _ _
  · exact join

theorem prefix_of_mem_climb {q : Path} {first : Bytes} {rest : List Bytes}
    (above : q ∈ climb first rest) :
    q.bytes <+: [Bytes.slash].intercalate (first :: rest.reverse) := by
  induction rest with
  | nil =>
    unfold climb at above
    split at above
    · cases above
    · cases List.mem_singleton.mp above
      exact List.nil_prefix
  | cons segment rest ih =>
    have shorter : [Bytes.slash].intercalate (first :: rest.reverse) <+:
        [Bytes.slash].intercalate (first :: (segment :: rest).reverse) := by
      refine prefix_intercalate (List.cons_ne_nil _ _) ?_
      simp
    unfold climb at above
    split at above
    · exact (ih above).trans shorter
    · -- The nearest path above leaves out this segment and the idle ones before it.
      rcases List.mem_cons.mp above with rfl | above
      · refine prefix_ofReversed (List.cons_ne_nil _ _) ?_
        exact (List.dropWhile_suffix _).trans (List.suffix_cons _ _)
      · exact (ih above).trans shorter

theorem prefix_of_mem_parents {p q : Path} (above : q ∈ p.parents) : q.bytes <+: p.bytes := by
  have whole : [Bytes.slash].intercalate p.segments = p.bytes := List.intercalate_splitOn _
  unfold parents at above
  split at above
  next => cases above
  next first rest segments =>
    rw [← whole, segments]
    simpa using prefix_of_mem_climb above

theorem Begins.isPrefix {p q : Path} (begins : q.Begins p) : q.bytes <+: p.bytes := by
  rcases begins with rfl | above
  · exact List.prefix_rfl
  · exact prefix_of_mem_parents above

end ElfCarve.Path
