import ElfCarve.Proofs.Path.Plain

/-!
# The parent of a path with a last name

The parent of a path is a matter of text: the last segment is cut off, and so are the idle segments
before it.  What is left are the segments that the path begins with, but for the root, which is
written with an empty segment more.
-/

namespace ElfCarve.Path

variable {p : Path} {first last : Bytes} {front rest : List Bytes}

/-- How a path with a last segment divides into its parent and that segment. -/
inductive Divides (p : Path) (last : Bytes) : Prop
  | alone (segments : p.segments = [last]) (lies : p.parent? = some ⟨[]⟩)
  | within {parent : Path} {front between blanks : List Bytes} (lies : p.parent? = some parent)
      (filled : parent.bytes ≠ []) (segments : p.segments = front ++ (between ++ [last]))
      (idle : ∀ segment ∈ between, isIdle segment)
      (parentSegments : parent.segments = front ++ blanks)
      (blank : ∀ segment ∈ blanks, segment = [])

theorem parent?_of_segments (segments : p.segments = first :: (rest ++ [last]))
    (lasting : isIdle last = false) :
    p.parent? = some (ofReversed first (rest.reverse.dropWhile isIdle)) := by
  rw [parent?, parents, segments]
  simp [climb, lasting]

theorem segments_root : (⟨[Bytes.slash]⟩ : Path).segments = [[], []] := by
  decide

theorem ofReversed_eq_or (first : Bytes) (rest : List Bytes) :
    (first = [] ∧ rest = [] ∧ ofReversed first rest = ⟨[Bytes.slash]⟩) ∨
      ((first ≠ [] ∨ rest ≠ []) ∧ ofReversed first rest = ofSegments (first :: rest.reverse)) := by
  cases first with
  | cons => exact .inr ⟨.inl (List.cons_ne_nil _ _), rfl⟩
  | nil =>
    cases rest with
    | nil => exact .inl ⟨rfl, rfl, rfl⟩
    | cons => exact .inr ⟨.inr (List.cons_ne_nil _ _), rfl⟩

theorem bytes_ofSegments_ne_nil (filled : first ≠ [] ∨ rest ≠ []) :
    (ofSegments (first :: rest)).bytes ≠ [] := by
  intro empty
  change [Bytes.slash].intercalate (first :: rest) = [] at empty
  by_cases single : rest = []
  · subst single
    rw [List.intercalate_singleton] at empty
    simp [empty] at filled
  · rw [List.intercalate_cons_of_ne_nil single] at empty
    simp at empty

theorem prefix_of_parent? {parent : Path} (lies : p.parent? = some parent) :
    parent.bytes <+: p.bytes :=
  prefix_of_mem_parents (List.mem_of_head? lies)

theorem isAbsolute_of_prefix {q : Path} (isPrefix : q.bytes <+: p.bytes) (filled : q.bytes ≠ []) :
    q.isAbsolute = p.isAbsolute := by
  obtain ⟨more, joined⟩ := isPrefix
  rw [isAbsolute, isAbsolute, ← joined, List.head?_append_of_ne_nil _ filled]

theorem divides (ends : p.segments = front ++ [last]) (lasting : isIdle last = false) :
    p.Divides last := by
  cases front with
  | nil =>
    have filled : last ≠ [] := by
      rintro rfl
      cases lasting
    refine .alone ends ?_
    rw [parent?, parents, ends]
    simp [climb, filled]
  | cons first middle =>
    -- The segments behind the first are those that are kept and the idle ones that go.
    have split : middle = (middle.reverse.dropWhile isIdle).reverse ++
        (middle.reverse.takeWhile isIdle).reverse := by
      rw [← List.reverse_append, List.takeWhile_append_dropWhile, List.reverse_reverse]
    have idle : ∀ segment ∈ (middle.reverse.takeWhile isIdle).reverse, isIdle segment :=
      fun segment member => List.mem_takeWhile_imp (List.mem_reverse.mp member)
    have lies := parent?_of_segments ends lasting
    generalize middle.reverse.dropWhile isIdle = kept at split lies
    generalize (middle.reverse.takeWhile isIdle).reverse = between at split idle
    have segments : p.segments = (first :: kept.reverse) ++ (between ++ [last]) := by
      rw [ends, split, List.cons_append, List.cons_append, List.append_assoc]
    rcases ofReversed_eq_or first kept with ⟨rfl, rfl, isRoot⟩ | ⟨filled, joined⟩
    · have parentSegments : (⟨[Bytes.slash]⟩ : Path).segments = [[]] ++ [[]] := segments_root
      rw [isRoot] at lies
      exact .within lies (List.cons_ne_nil _ _) segments idle parentSegments (by simp)
    · have subset : first :: kept.reverse ⊆ p.segments := by
        rw [segments]
        exact List.subset_append_left _ _
      have parentSegments : (ofSegments (first :: kept.reverse)).segments =
          (first :: kept.reverse) ++ [] := by
        rw [segments_ofSegments_of_subset (List.cons_ne_nil _ _) subset, List.append_nil]
      rw [joined] at lies
      have parentFilled :=
        bytes_ofSegments_ne_nil (filled.imp_right (mt List.reverse_eq_nil_iff.mp))
      exact .within lies parentFilled segments idle parentSegments (by simp)

end ElfCarve.Path
