import ElfCarve.Proofs.Path

/-!
# Plain paths

A plain path is made of ordinary names with single slashes between them: no slash in front or
behind, and no dots that mean a place.  Such a path is known by its segments, and the paths above it
are the beginnings of them.
-/

namespace ElfCarve.Path

def IsOrdinary (segment : Bytes) : Prop :=
  segment ≠ [] ∧ segment ≠ [Bytes.dot] ∧ segment ≠ [Bytes.dot, Bytes.dot]

instance (segment : Bytes) : Decidable (IsOrdinary segment) :=
  inferInstanceAs (Decidable (_ ∧ _))

/-- Whether a path is ordinary names between single slashes. -/
def IsPlain (p : Path) : Prop :=
  ∀ segment ∈ p.segments, IsOrdinary segment

instance (p : Path) : Decidable p.IsPlain :=
  inferInstanceAs (Decidable (∀ segment ∈ p.segments, IsOrdinary segment))

/-- Whether two paths are different and neither of them lies above the other, by their segments. -/
def Apart (p q : Path) : Prop :=
  ¬ p.segments <+: q.segments ∧ ¬ q.segments <+: p.segments

instance (p q : Path) : Decidable (p.Apart q) :=
  inferInstanceAs (Decidable (_ ∧ _))

theorem Apart.symm {p q : Path} (apart : p.Apart q) : q.Apart p :=
  And.symm apart

def AreNames (segments : List Bytes) : Prop :=
  ∀ segment ∈ segments, IsOrdinary segment ∧ Bytes.slash ∉ segment

variable {p : Path} {front segments : List Bytes} {last : Bytes}

theorem AreNames.of_concat (names : AreNames (front ++ [last])) : AreNames front :=
  fun segment member => names segment (List.mem_append_left [last] member)

/-! ## Taking apart and joining -/

theorem slash_notMem_of_mem_segments {segment : Bytes} (member : segment ∈ p.segments) :
    Bytes.slash ∉ segment := by
  obtain ⟨bytes⟩ := p
  change segment ∈ bytes.splitOn Bytes.slash at member
  induction bytes generalizing segment with
  | nil =>
    rw [List.splitOn_nil, List.mem_singleton] at member
    simp [member]
  | cons byte bytes ih =>
    rw [List.splitOn_cons_eq_if_modifyHead] at member
    split at member
    next =>
      rcases List.mem_cons.mp member with rfl | member
      · exact List.not_mem_nil
      · exact ih member
    next noSlash =>
      -- The byte goes to the first of the pieces that the others make.
      cases pieces : bytes.splitOn Bytes.slash with
      | nil => exact absurd pieces (List.splitOn_ne_nil _ _)
      | cons first rest =>
        rw [pieces, List.modifyHead_cons] at member
        rcases List.mem_cons.mp member with rfl | member
        · have inFirst := ih (pieces ▸ List.mem_cons_self)
          rw [List.mem_cons, not_or]
          exact ⟨fun same => noSlash (beq_iff_eq.mpr same.symm), inFirst⟩
        · exact ih (pieces ▸ List.mem_cons_of_mem first member)

theorem ofSegments_segments (p : Path) : ofSegments p.segments = p :=
  congrArg Path.mk (List.intercalate_splitOn Bytes.slash)

theorem segments_ofSegments (names : AreNames segments) (filled : segments ≠ []) :
    (ofSegments segments).segments = segments :=
  List.splitOn_intercalate _ (fun segment member => (names segment member).2) filled

theorem segments_ofSegments_of_subset (filled : front ≠ []) (subset : front ⊆ p.segments) :
    (ofSegments front).segments = front :=
  List.splitOn_intercalate _ (fun _ member => slash_notMem_of_mem_segments (subset member)) filled

theorem mem_bytes_of_mem_segments {segment : Bytes} {byte : UInt8} (member : segment ∈ p.segments)
    (among : byte ∈ segment) : byte ∈ p.bytes := by
  have whole : [Bytes.slash].intercalate p.segments = p.bytes := List.intercalate_splitOn _
  rw [← whole]
  generalize p.segments = segments at member
  induction segments with
  | nil => cases member
  | cons first rest ih =>
    by_cases single : rest = []
    · subst single
      cases List.mem_singleton.mp member
      simpa using among
    · rw [List.intercalate_cons_of_ne_nil single]
      rcases List.mem_cons.mp member with rfl | later
      · simp [among]
      · simp [ih later]

theorem IsPlain.areNames (plain : p.IsPlain) : AreNames p.segments :=
  fun segment member => ⟨plain segment member, slash_notMem_of_mem_segments member⟩

theorem IsPlain.exists_concat (plain : p.IsPlain) :
    ∃ front last, AreNames (front ++ [last]) ∧ p.segments = front ++ [last] ∧
      p = ofSegments (front ++ [last]) := by
  have filled : p.segments ≠ [] := List.splitOn_ne_nil _ _
  obtain ⟨front, last, segments⟩ := List.eq_nil_or_concat' p.segments |>.resolve_left filled
  refine ⟨front, last, ?_, segments, ?_⟩
  · rw [← segments]
    exact plain.areNames
  · rw [← segments, ofSegments_segments]

/-! ## The bytes of a plain path -/

theorem bytes_ne_nil_of_areNames (names : AreNames segments) (filled : segments ≠ []) :
    (ofSegments segments).bytes ≠ [] := by
  intro empty
  have single : (ofSegments segments).segments = [[]] := by
    rw [Path.segments, empty, List.splitOn_nil]
  rw [segments_ofSegments names filled] at single
  exact (names [] (by simp [single])).1.1 rfl

theorem not_isAbsolute_of_areNames (names : AreNames segments) :
    (ofSegments segments).isAbsolute = false := by
  by_cases filled : segments = []
  · subst filled
    rfl
  cases shape : (ofSegments segments).bytes with
  | nil => simp [isAbsolute, shape]
  | cons byte bytes =>
    -- A slash in front would make the first segment empty.
    by_contra absolute
    have slash : byte = Bytes.slash := by simpa [isAbsolute, shape] using absolute
    have empty : [] ∈ (ofSegments segments).segments := by
      simp [Path.segments, shape, slash, List.splitOn_cons_eq_if_modifyHead]
    rw [segments_ofSegments names filled] at empty
    exact (names [] empty).1.1 rfl

theorem prefix_ofSegments_concat (front : List Bytes) (last : Bytes) :
    (ofSegments front).bytes <+: (ofSegments (front ++ [last])).bytes := by
  by_cases filled : front = []
  · subst filled
    exact List.nil_prefix
  · exact prefix_intercalate filled (List.prefix_append front [last])

/-! ## The paths above a plain path -/

theorem IsOrdinary.not_isIdle {segment : Bytes} (ordinary : IsOrdinary segment) :
    isIdle segment = false := by
  simp [isIdle, ordinary.1, ordinary.2.1]

theorem ofReversed_of_ne_nil {first : Bytes} {rest : List Bytes} (filled : first ≠ []) :
    ofReversed first rest = ofSegments (first :: rest.reverse) := by
  cases first with
  | nil => exact absurd rfl filled
  | cons => rfl

theorem parents_ofSegments_concat (names : AreNames (front ++ [last])) :
    (ofSegments (front ++ [last])).parents = ofSegments front :: (ofSegments front).parents := by
  have lastOrdinary : IsOrdinary last := (names last (by simp)).1
  rw [parents, segments_ofSegments names (by simp)]
  cases front with
  | nil =>
    -- Above a single name there is only the empty path.
    simp [climb, lastOrdinary.1, ofSegments, parents, Path.segments, List.splitOn_nil]
  | cons first rest =>
    have firstOrdinary : IsOrdinary first := (names first (by simp)).1
    have noIdle : rest.reverse.dropWhile isIdle = rest.reverse := by
      rw [List.dropWhile_eq_self_iff]
      intro present idle
      have member : rest.reverse[0] ∈ first :: rest ++ [last] := by simp
      have ordinary := (names _ member).1
      exact absurd (ordinary.not_isIdle.symm.trans idle) Bool.false_ne_true
    have nearest : ofReversed first rest.reverse = ofSegments (first :: rest) := by
      rw [ofReversed_of_ne_nil firstOrdinary.1, List.reverse_reverse]
    have parents_front : (ofSegments (first :: rest)).parents = climb first rest.reverse := by
      rw [parents, segments_ofSegments names.of_concat (by simp)]
    rw [List.cons_append, parents_front]
    simp [climb, lastOrdinary.not_isIdle, noIdle, nearest]

theorem parent?_ofSegments_concat (names : AreNames (front ++ [last])) :
    (ofSegments (front ++ [last])).parent? = some (ofSegments front) := by
  rw [parent?, parents_ofSegments_concat names, List.head?_cons]

/-! ## The first segments of a path -/

def first (p : Path) (count : Nat) : Path :=
  .ofSegments (p.segments.take count)

variable {i count : Nat}

theorem take_segments_ne_nil (p : Path) (positive : 0 < i) : p.segments.take i ≠ [] := by
  have filled : p.segments ≠ [] := List.splitOn_ne_nil _ _
  rw [Ne, List.take_eq_nil_iff]
  rintro (none | empty)
  · exact Nat.ne_of_gt positive none
  · exact filled empty

theorem segments_first (positive : 0 < i) : (p.first i).segments = p.segments.take i :=
  segments_ofSegments_of_subset (p.take_segments_ne_nil positive) (List.take_subset _ _)

theorem prefix_first (p : Path) (positive : 0 < i) (within : i ≤ count) :
    (p.first i).bytes <+: (p.first count).bytes :=
  prefix_intercalate (p.take_segments_ne_nil positive) (List.take_prefix_take_left within)

theorem IsPlain.first (plain : p.IsPlain) (positive : 0 < i) : (p.first i).IsPlain := by
  intro segment member
  rw [segments_first positive] at member
  exact plain segment (List.mem_of_mem_take member)

theorem IsPlain.first_bytes_ne_nil (plain : p.IsPlain) (positive : 0 < i) :
    (p.first i).bytes ≠ [] := by
  have names : AreNames (p.segments.take i) :=
    fun segment member => plain.areNames segment (List.mem_of_mem_take member)
  exact bytes_ne_nil_of_areNames names (p.take_segments_ne_nil positive)

theorem IsPlain.parent? (plain : p.IsPlain) :
    p.parent? = some (p.first (p.segments.length - 1)) := by
  obtain ⟨front, last, names, segments, joined⟩ := plain.exists_concat
  have isFront : p.first (p.segments.length - 1) = ofSegments front := by
    simp [Path.first, segments]
  rw [isFront, joined]
  exact parent?_ofSegments_concat names

end ElfCarve.Path
