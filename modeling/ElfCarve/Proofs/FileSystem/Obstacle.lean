import ElfCarve.Proofs.FileSystem.Furnishing

/-!
# Obstacles to directories

A survey along segments has one of three endings: it gets through, or something stands in the way,
or a segment is no name.  Which of them it is can be seen from the tree and the segments alone.

* `Surveyed` is the relation of a survey to its ending, with the names that it has got through, and
  `surveyed` says that every survey has one.
* `Surveyed.isOk_iff`, `Surveyed.of_standing` and `Surveyed.of_invalid` say what decides the ending.
* `Furnishes` is about the directories along the first names of a path.  `Surveyed.isOk_iff_first`,
  `Surveyed.furnishes`, `Surveyed.of_obstructs` and `Surveyed.of_overlong` are the endings again,
  told by where these names lead.
-/

namespace ElfCarve

variable {here loc : Location} {names chain : List Name} {name : Name}
  {segment : Bytes} {segments rest : List Bytes} {survey : Survey}

def way : Location → List Name → List Location
  | _, [] => []
  | here, name :: rest => (name :: here) :: way (name :: here) rest

theorem mem_way_iff :
    loc ∈ way here names ↔ ∃ chain, chain ≠ [] ∧ chain <+: names ∧ loc = chain.reverse ++ here := by
  induction names generalizing here with
  | nil => simp [way]
  | cons name rest ih =>
    rw [way, List.mem_cons, ih]
    constructor
    · rintro (rfl | ⟨chain, -, isPrefix, rfl⟩)
      · exact ⟨[name], List.cons_ne_nil _ _, List.cons_prefix_cons.mpr ⟨rfl, List.nil_prefix⟩, rfl⟩
      · exact ⟨name :: chain, List.cons_ne_nil _ _, List.cons_prefix_cons.mpr ⟨rfl, isPrefix⟩,
          by simp⟩
    · rintro ⟨chain, filled, isPrefix, rfl⟩
      cases chain with
      | nil => exact absurd rfl filled
      | cons first more =>
        obtain ⟨rfl, morePrefix⟩ := List.cons_prefix_cons.mp isPrefix
        by_cases single : more = []
        · subst single
          exact .inl rfl
        · exact .inr ⟨more, single, morePrefix, by simp⟩

/-- Names that begin some names and further segments end among the names or go on behind them. -/
theorem prefix_names_append (isPrefix : chain.map Name.bytes <+: names.map Name.bytes ++ rest) :
    chain <+: names ∨
      ∃ name more, chain = names ++ name :: more ∧ (name :: more).map Name.bytes <+: rest := by
  induction names generalizing chain with
  | nil =>
    cases chain with
    | nil => exact .inl List.nil_prefix
    | cons name more => exact .inr ⟨name, more, rfl, isPrefix⟩
  | cons name names ih =>
    cases chain with
    | nil => exact .inl List.nil_prefix
    | cons first chain =>
      obtain ⟨sameBytes, chainPrefix⟩ := List.cons_prefix_cons.mp isPrefix
      have same := Name.eq_of_bytes sameBytes
      subst same
      rcases ih chainPrefix with among | ⟨next, more, rfl, behind⟩
      · exact .inl (List.cons_prefix_cons.mpr ⟨rfl, among⟩)
      · exact .inr ⟨next, more, rfl, behind⟩

theorem prefix_of_map (isPrefix : chain.map Name.bytes <+: names.map Name.bytes) :
    chain <+: names := by
  rw [← List.append_nil (names.map Name.bytes)] at isPrefix
  rcases prefix_names_append isPrefix with among | ⟨name, more, -, behind⟩
  · exact among
  · simp at behind

theorem prefix_take_iff {count : Nat} :
    chain.map Name.bytes <+: segments.take count ↔
      chain.length ≤ count ∧ segments.take chain.length = chain.map Name.bytes := by
  constructor
  · intro isPrefix
    have within : chain.length ≤ count := by
      have shorter := isPrefix.length_le
      simp only [List.length_map, List.length_take] at shorter
      omega
    have beginning := List.prefix_iff_eq_take.mp isPrefix
    rw [List.length_map, List.take_take, Nat.min_eq_left within] at beginning
    exact ⟨within, beginning.symm⟩
  · rintro ⟨within, beginning⟩
    rw [← beginning]
    exact List.take_prefix_take_left within

namespace FileSystem

variable {fs before after : FileSystem}

/-- A directory stands or can be put wherever names lead through. -/
def ClearAlong (fs : FileSystem) (here : Location) (names : List Name) : Prop :=
  ∀ loc ∈ way here names, IsClear (fs.get? loc)

theorem clearAlong_nil : fs.ClearAlong here [] :=
  fun _ member => absurd member List.not_mem_nil

theorem ClearAlong.cons (clear : IsClear (fs.get? (name :: here)))
    (below : fs.ClearAlong (name :: here) names) : fs.ClearAlong here (name :: names) :=
  List.forall_mem_cons.mpr ⟨clear, below⟩

theorem ClearAlong.of_prefix (clear : fs.ClearAlong here names) (filled : chain ≠ [])
    (isPrefix : chain <+: names) : IsClear (fs.get? (chain.reverse ++ here)) :=
  clear _ (mem_way_iff.mpr ⟨chain, filled, isPrefix, rfl⟩)

/-! ## The endings of a survey -/

inductive Surveyed (fs : FileSystem) (here : Location) : List Bytes → Survey → Prop
  | through (names : List Name) (clear : fs.ClearAlong here names) :
      Surveyed fs here (names.map Name.bytes) ⟨way here names, .ok (names.reverse ++ here)⟩
  | obstructed (names : List Name) (name : Name) (rest : List Bytes)
      (clear : fs.ClearAlong here names)
      (standing : ¬ IsClear (fs.get? (name :: (names.reverse ++ here)))) :
      Surveyed fs here (names.map Name.bytes ++ name.bytes :: rest)
        ⟨way here names, .error (if rest = [] then .alreadyExists else .notDirectory)⟩
  | overlong (names : List Name) (segment : Bytes) (rest : List Bytes)
      (clear : fs.ClearAlong here names) (invalid : ¬ Name.Valid segment) :
      Surveyed fs here (names.map Name.bytes ++ segment :: rest)
        ⟨way here names, .error .nameTooLong⟩

theorem Surveyed.cons (clear : IsClear (fs.get? (name :: here)))
    (below : fs.Surveyed (name :: here) segments survey) :
    fs.Surveyed here (name.bytes :: segments)
      ⟨(name :: here) :: survey.directories, survey.result⟩ := by
  have reversed (names : List Name) :
      names.reverse ++ name :: here = (name :: names).reverse ++ here := by simp
  cases below with
  | through names clearBelow =>
    rw [reversed]
    exact .through (name :: names) (.cons clear clearBelow)
  | obstructed names next rest clearBelow standing =>
    rw [reversed] at standing
    exact .obstructed (name :: names) next rest (.cons clear clearBelow) standing
  | overlong names segment rest clearBelow invalid =>
    exact .overlong (name :: names) segment rest (.cons clear clearBelow) invalid

theorem surveyed (fs : FileSystem) (here : Location) (segments : List Bytes) :
    fs.Surveyed here segments (fs.survey here (segments.map Component.ofSegment)) := by
  induction segments generalizing here with
  | nil => exact .through [] clearAlong_nil
  | cons segment segments ih =>
    rw [List.map_cons]
    by_cases valid : Name.Valid segment
    · have component : Component.ofSegment segment = .child ⟨segment, valid⟩ :=
        Component.ofSegment_eq_child_iff.mpr rfl
      rw [component]
      by_cases clear : IsClear (fs.get? (⟨segment, valid⟩ :: here))
      · rw [survey_child_of_clear clear]
        exact .cons clear (ih _)
      · rw [survey_child_of_not_clear clear]
        simp only [List.map_eq_nil_iff]
        exact .obstructed [] ⟨segment, valid⟩ segments clearAlong_nil clear
    · have noChild (name : Name) : Component.ofSegment segment ≠ .child name := by
        intro isChild
        rw [Component.ofSegment_eq_child_iff.mp isChild] at valid
        exact valid name.valid
      cases component : Component.ofSegment segment with
      | child name => exact absurd component (noChild name)
      | blank | stay | up | overlong => exact .overlong [] segment segments clearAlong_nil valid

/-! ## What decides the ending -/

def IsOpen (fs : FileSystem) (here : Location) (segments : List Bytes) : Prop :=
  ∀ chain : List Name, chain ≠ [] → chain.map Name.bytes <+: segments →
    IsClear (fs.get? (chain.reverse ++ here))

theorem directory_of_below {below : List Name} {entry : Entry} (filled : below ≠ [])
    (present : fs.get? (below ++ loc) = some entry) : fs.get? loc = some .directory := by
  cases below with
  | nil => exact absurd rfl filled
  | cons name below => exact directory_of_append (fs.get?_parent present)

theorem eq_concat_of_standing (clear : fs.ClearAlong here names)
    (standing : ¬ IsClear (fs.get? (name :: (names.reverse ++ here)))) (filled : chain ≠ [])
    (isPrefix : chain.map Name.bytes <+: names.map Name.bytes ++ name.bytes :: rest)
    (chainStanding : ¬ IsClear (fs.get? (chain.reverse ++ here))) : chain = names ++ [name] := by
  rcases prefix_names_append isPrefix with among | ⟨next, more, rfl, behind⟩
  · exact absurd (clear.of_prefix filled among) chainStanding
  · have same := Name.eq_of_bytes (List.cons_prefix_cons.mp behind).1
    subst same
    by_cases single : more = []
    · rw [single]
    -- Below what is in the way there is nothing.
    · obtain ⟨entry, present, -⟩ := not_isClear_iff.mp chainStanding
      have below : (names ++ next :: more).reverse ++ here =
          more.reverse ++ next :: (names.reverse ++ here) := by simp
      rw [below] at present
      have isDirectory := directory_of_below (mt List.reverse_eq_nil_iff.mp single) present
      exact absurd (.inr isDirectory) standing

theorem Surveyed.isOk_iff (found : fs.Surveyed here segments survey) :
    (∃ dir, survey.result = .ok dir) ↔
      (∀ segment ∈ segments, Name.Valid segment) ∧ fs.IsOpen here segments := by
  cases found with
  | through names clear =>
    refine iff_of_true ⟨_, rfl⟩ ⟨fun segment member => ?_, fun chain filled isPrefix => ?_⟩
    · obtain ⟨name, -, rfl⟩ := List.mem_map.mp member
      exact name.valid
    · exact clear.of_prefix filled (prefix_of_map isPrefix)
  | obstructed names name rest clear standing =>
    refine iff_of_false (fun ⟨_, impossible⟩ => nomatch impossible) fun ⟨_, isOpen⟩ => standing ?_
    have clearHere := isOpen (names ++ [name]) (by simp) (by simp)
    simpa using clearHere
  | overlong names segment rest clear invalid =>
    refine iff_of_false (fun ⟨_, impossible⟩ => nomatch impossible) fun ⟨valid, _⟩ => invalid ?_
    exact valid segment (by simp)

theorem Surveyed.of_isOk {dir : Location} (found : fs.Surveyed here segments survey)
    (isOk : survey.result = .ok dir) :
    ∃ names : List Name, segments = names.map Name.bytes ∧ survey.directories = way here names ∧
      fs.ClearAlong here names := by
  cases found with
  | through names clear => exact ⟨names, rfl, rfl, clear⟩
  | obstructed | overlong => cases isOk

theorem Surveyed.of_standing (found : fs.Surveyed here segments survey) (filled : chain ≠ [])
    (isPrefix : chain.map Name.bytes <+: segments)
    (standing : ¬ IsClear (fs.get? (chain.reverse ++ here))) :
    survey.result =
        .error (if chain.length = segments.length then .alreadyExists else .notDirectory) ∧
      ∀ loc ∈ survey.directories, fs.get? loc = some .directory := by
  cases found with
  | through names clear =>
    have among := prefix_of_map isPrefix
    exact absurd (clear.of_prefix filled among) standing
  | obstructed names name rest clear blocked =>
    have whole := eq_concat_of_standing clear blocked filled isPrefix standing
    refine ⟨by simp [whole, List.length_eq_zero_iff], fun loc member => ?_⟩
    -- All of them lie above what is in the way.
    obtain ⟨above, -, ⟨more, rfl⟩, rfl⟩ := mem_way_iff.mp member
    obtain ⟨entry, present, -⟩ := not_isClear_iff.mp blocked
    have below : name :: ((above ++ more).reverse ++ here) =
        (name :: more.reverse) ++ (above.reverse ++ here) := by simp
    rw [below] at present
    exact directory_of_below (List.cons_ne_nil _ _) present
  | overlong names segment rest clear invalid =>
    rcases prefix_names_append isPrefix with among | ⟨name, more, -, behind⟩
    · exact absurd (clear.of_prefix filled among) standing
    · rw [← (List.cons_prefix_cons.mp behind).1] at invalid
      exact absurd name.valid invalid

theorem Surveyed.of_invalid {i : Nat} (found : fs.Surveyed here segments survey)
    (isOpen : fs.IsOpen here segments) (segmentAt : segments[i]? = some segment)
    (invalid : ¬ Name.Valid segment)
    (valid : ∀ k < i, ∀ other, segments[k]? = some other → Name.Valid other) :
    survey.result = .error .nameTooLong ∧
      ∃ names : List Name, segments.take i = names.map Name.bytes ∧
        survey.directories = way here names ∧ fs.ClearAlong here names := by
  cases found with
  | through names clear =>
    obtain ⟨name, -, rfl⟩ := List.mem_map.mp (List.mem_of_getElem? segmentAt)
    exact absurd name.valid invalid
  | obstructed names name rest clear standing =>
    have clearHere := isOpen (names ++ [name]) (by simp) (by simp)
    exact absurd (by simpa using clearHere) standing
  | overlong names first rest clear firstInvalid =>
    -- The segments before it are names, and so are those before the one that the survey met.
    have place : i = names.length := by
      rcases Nat.lt_trichotomy i names.length with before | same | behind
      · rw [List.getElem?_append_left (by simpa using before)] at segmentAt
        obtain ⟨name, -, rfl⟩ := List.mem_map.mp (List.mem_of_getElem? segmentAt)
        exact absurd name.valid invalid
      · exact same
      · exact absurd (valid names.length behind first (by simp)) firstInvalid
    subst place
    exact ⟨rfl, names, by simp, rfl, clear⟩

end FileSystem

/-! ## Along the first names of a path -/

section Along

open FileSystem Overlay

variable {fs before after : FileSystem} {path : Path} {count i : Nat}

def FileSystem.Obstructs (fs : FileSystem) (path : Path) : Prop :=
  ∃ entry, fs.entryAt? path = some entry ∧ entry ≠ .directory

/-- What is added are the missing directories among those that the first names of a path name, up to
a number of names. -/
structure FileSystem.Furnishes (before : FileSystem) (path : Path) (count : Nat)
    (after : FileSystem) : Prop where
  workingDirectory : after.workingDirectory = before.workingDirectory
  gained : ∀ i loc, 0 < i → i ≤ count → (path.first i).Names before.workingDirectory loc →
    before.get? loc = none → after.get? loc = some .directory
  kept : ∀ loc, (∀ i, 0 < i → i ≤ count → (path.first i).Names before.workingDirectory loc →
    before.get? loc ≠ none) → after.get? loc = before.get? loc

theorem Path.IsPlain.valid_iff (plain : path.IsPlain) (noZero : 0 ∉ path.bytes)
    (member : segment ∈ path.segments) : Name.Valid segment ↔ segment.length ≤ 255 := by
  obtain ⟨filled, noDot, noDots⟩ := plain segment member
  have noSlash := slash_notMem_of_mem_segments member
  have noZeroHere : 0 ∉ segment := fun zero => noZero (mem_bytes_of_mem_segments member zero)
  exact ⟨fun valid => valid.2.2.2.2.2,
    fun short => ⟨filled, noDot, noDots, noSlash, noZeroHere, short⟩⟩

theorem Path.names_first_iff (positive : 0 < i) :
    (path.first i).Names here loc ↔
      ∃ chain : List Name, path.segments.take i = chain.map Name.bytes ∧
        loc = chain.reverse ++ here := by
  rw [Names, segments_first positive]

theorem mem_way_iff_names_first (segments : path.segments.take i = names.map Name.bytes) :
    loc ∈ way here names ↔ ∃ k, 0 < k ∧ k ≤ i ∧ (path.first k).Names here loc := by
  rw [mem_way_iff]
  constructor
  · rintro ⟨chain, filled, isPrefix, rfl⟩
    have chainPrefix := isPrefix.map Name.bytes
    rw [← segments, prefix_take_iff] at chainPrefix
    have positive : 0 < chain.length := List.length_pos_iff.mpr filled
    exact ⟨chain.length, positive, chainPrefix.1,
      (Path.names_first_iff positive).mpr ⟨chain, chainPrefix.2, rfl⟩⟩
  · rintro ⟨k, positive, within, named⟩
    obtain ⟨chain, beginning, rfl⟩ := (Path.names_first_iff positive).mp named
    refine ⟨chain, ?_, prefix_of_map ?_, rfl⟩
    · rintro rfl
      exact path.take_segments_ne_nil positive beginning
    · rw [← beginning, ← segments]
      exact List.take_prefix_take_left within

theorem furnishes_of_way (segments : path.segments.take i = names.map Name.bytes)
    (clear : before.ClearAlong before.workingDirectory names)
    (laid : before.Overlaid (directories (way before.workingDirectory names)) after) :
    before.Furnishes path i after := by
  have named_iff (loc : Location) : loc ∈ way before.workingDirectory names ↔
      ∃ k, 0 < k ∧ k ≤ i ∧ (path.first k).Names before.workingDirectory loc :=
    mem_way_iff_names_first segments
  refine ⟨laid.workingDirectory, fun k loc positive within named free => ?_, fun loc standing => ?_⟩
  · exact laid.put (if_pos ((named_iff loc).mpr ⟨k, positive, within, named⟩))
  · by_cases member : loc ∈ way before.workingDirectory names
    · -- A directory that is named and does not go missing has been there.
      obtain ⟨k, positive, within, named⟩ := (named_iff loc).mp member
      have isDirectory := (clear loc member).resolve_left (standing k positive within named)
      rw [isDirectory]
      exact laid.put (if_pos member)
    · exact laid.elsewhere (if_neg member)

section Plain

variable (linkFree : fs.LinkFree) (plain : path.IsPlain)
  (walkable : ∀ i, 0 < i → i ≤ count → Walkable (path.first i))

include linkFree plain walkable

theorem obstructs_first_iff (positive : 0 < i) (within : i ≤ count) :
    fs.Obstructs (path.first i) ↔
      ∃ chain : List Name, path.segments.take i = chain.map Name.bytes ∧
        ¬ IsClear (fs.get? (chain.reverse ++ fs.workingDirectory)) := by
  simp only [Obstructs, entryAt?_eq_some_iff, not_isClear_iff,
    target?_eq_some_iff_of_isPlain linkFree (plain.first positive), Path.names_first_iff positive]
  constructor
  · rintro ⟨entry, ⟨loc, ⟨-, ⟨chain, segments, rfl⟩, -⟩, present⟩, noDirectory⟩
    exact ⟨chain, segments, entry, present, noDirectory⟩
  · rintro ⟨chain, segments, entry, present, noDirectory⟩
    have walkableHere := walkable i positive within
    exact ⟨entry, ⟨_, ⟨walkableHere, ⟨chain, segments, rfl⟩, by simp [present]⟩, present⟩,
      noDirectory⟩

theorem isOpen_iff_not_obstructs :
    fs.IsOpen fs.workingDirectory (path.segments.take count) ↔
      ∀ i, 0 < i → i ≤ count → ¬ fs.Obstructs (path.first i) := by
  constructor
  · intro isOpen i positive within obstructs
    obtain ⟨chain, segments, standing⟩ :=
      (obstructs_first_iff linkFree plain walkable positive within).mp obstructs
    refine standing (isOpen chain ?_ ?_)
    · rintro rfl
      exact path.take_segments_ne_nil positive segments
    · rw [← segments]
      exact List.take_prefix_take_left within
  · intro free chain filled isPrefix
    obtain ⟨within, segments⟩ := prefix_take_iff.mp isPrefix
    have positive : 0 < chain.length := List.length_pos_iff.mpr filled
    by_contra standing
    have obstructs := obstructs_first_iff linkFree plain walkable positive within
    exact free chain.length positive within (obstructs.mpr ⟨chain, segments, standing⟩)

variable (found : fs.Surveyed fs.workingDirectory (path.segments.take count) survey)

include found

theorem FileSystem.Surveyed.isOk_iff_first (noZero : 0 ∉ path.bytes) :
    (∃ dir, survey.result = .ok dir) ↔
      (∀ segment ∈ path.segments.take count, segment.length ≤ 255) ∧
        ∀ i, 0 < i → i ≤ count → ¬ fs.Obstructs (path.first i) := by
  rw [found.isOk_iff, isOpen_iff_not_obstructs linkFree plain walkable]
  refine and_congr_left' (forall₂_congr fun segment member => ?_)
  exact plain.valid_iff noZero (List.mem_of_mem_take member)

variable (laid : fs.Overlaid (directories survey.directories) after)

include laid

theorem FileSystem.Surveyed.of_obstructs (bound : count ≤ path.segments.length) (positive : 0 < i)
    (within : i ≤ count) (obstructs : fs.Obstructs (path.first i)) :
    survey.result = .error (if i = count then .alreadyExists else .notDirectory) ∧ after = fs := by
  obtain ⟨chain, segments, standing⟩ :=
    (obstructs_first_iff linkFree plain walkable positive within).mp obstructs
  have lengths : chain.length = i := by
    have taken := congrArg List.length segments
    rw [List.length_take, List.length_map, Nat.min_eq_left (within.trans bound)] at taken
    exact taken.symm
  have isPrefix : chain.map Name.bytes <+: path.segments.take count := by
    rw [← segments]
    exact List.take_prefix_take_left within
  have filled : chain ≠ [] := List.length_pos_iff.mp (lengths ▸ positive)
  obtain ⟨refused, stand⟩ := found.of_standing filled isPrefix standing
  rw [lengths, List.length_take, Nat.min_eq_left bound] at refused
  exact ⟨refused, laid.unique (.of_directories stand)⟩

theorem FileSystem.Surveyed.of_overlong (noZero : 0 ∉ path.bytes)
    (free : ∀ k, 0 < k → k ≤ count → ¬ fs.Obstructs (path.first k)) (before : i < count)
    (segmentAt : path.segments[i]? = some segment) (long : 255 < segment.length)
    (short : ∀ k < i, ∀ other, path.segments[k]? = some other → other.length ≤ 255) :
    survey.result = .error .nameTooLong ∧ fs.Furnishes path i after := by
  have valid_iff (segment : Bytes) (member : segment ∈ path.segments) :=
    plain.valid_iff noZero member
  have beginning (k : Nat) (within : k < count) :
      (path.segments.take count)[k]? = path.segments[k]? := List.getElem?_take_of_lt within
  have invalid : ¬ Name.Valid segment := fun valid =>
    Nat.not_le_of_lt long ((valid_iff segment (List.mem_of_getElem? segmentAt)).mp valid)
  have valid (k : Nat) (earlier : k < i) (other : Bytes)
      (otherAt : (path.segments.take count)[k]? = some other) : Name.Valid other := by
    rw [beginning k (earlier.trans before)] at otherAt
    exact (valid_iff other (List.mem_of_getElem? otherAt)).mpr (short k earlier other otherAt)
  rw [← beginning i before] at segmentAt
  have isOpen := (isOpen_iff_not_obstructs linkFree plain walkable).mpr free
  obtain ⟨refused, names, segments, directories, clear⟩ :=
    found.of_invalid isOpen segmentAt invalid valid
  rw [List.take_take, Nat.min_eq_left before.le] at segments
  rw [directories] at laid
  exact ⟨refused, furnishes_of_way segments clear laid⟩

end Plain

theorem FileSystem.Surveyed.furnishes {dir : Location}
    (found : before.Surveyed before.workingDirectory (path.segments.take count) survey)
    (laid : before.Overlaid (directories survey.directories) after)
    (isOk : survey.result = .ok dir) : before.Furnishes path count after := by
  obtain ⟨names, segments, directories, clear⟩ := found.of_isOk isOk
  rw [directories] at laid
  exact furnishes_of_way segments clear laid

end Along

end ElfCarve
