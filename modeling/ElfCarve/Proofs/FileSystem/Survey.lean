import ElfCarve.Proofs.FileSystem.Descent
import ElfCarve.Proofs.FileSystem.Directories

/-!
# Surveys of the directories along names

What comes of making the directories along names can be told beforehand, by going down from the
top and looking at what stands there.  The survey of a file system does so: it lists the directories
that will stand in the end and says where the last of them is, or why it cannot be made.  That
making them comes to just this is shown apart from here, where they are made.

* `survey_congr` says what a survey depends on: whether each location is clear for a directory.
* `descend_of_survey` says that the way down is free once the directories stand.
-/

namespace ElfCarve

/-- Whether a directory stands at a place or can be put there. -/
def IsClear (found : Option Entry) : Prop :=
  found = none ∨ found = some .directory

instance (found : Option Entry) : Decidable (IsClear found) :=
  inferInstanceAs (Decidable (_ ∨ _))

theorem not_isClear_iff {found : Option Entry} :
    ¬ IsClear found ↔ ∃ entry, found = some entry ∧ entry ≠ .directory := by
  cases found <;> simp [IsClear]

/-- What making the directories along components comes to. -/
structure Survey where
  directories : List Location
  result : Except Errno Location

namespace FileSystem

variable {fs before between after : FileSystem} {here dir loc : Location} {errno : Errno}
  {front more : List Component} {last : Component} {segments : List Bytes} {segment : Bytes}

/-- Looks along components from a directory for what is in the way of directories. -/
def survey (fs : FileSystem) : Location → List Component → Survey
  | here, [] => ⟨[], .ok here⟩
  | here, .child name :: rest =>
    if IsClear (fs.get? (name :: here)) then
      ⟨(name :: here) :: (fs.survey (name :: here) rest).directories,
        (fs.survey (name :: here) rest).result⟩
    else ⟨[], .error (if rest = [] then .alreadyExists else .notDirectory)⟩
  | _, _ :: _ => ⟨[], .error .nameTooLong⟩

theorem survey_child_of_clear {name : Name} (clear : IsClear (fs.get? (name :: here))) :
    fs.survey here (.child name :: front) =
      ⟨(name :: here) :: (fs.survey (name :: here) front).directories,
        (fs.survey (name :: here) front).result⟩ := by
  rw [survey, if_pos clear]

theorem survey_child_of_not_clear {name : Name} (standing : ¬ IsClear (fs.get? (name :: here))) :
    fs.survey here (.child name :: front) =
      ⟨[], .error (if front = [] then .alreadyExists else .notDirectory)⟩ := by
  rw [survey, if_neg standing]

/-! ## What a survey finds -/

theorem mem_directories_survey (member : loc ∈ (fs.survey here front).directories) :
    IsClear (fs.get? loc) ∧
      ∃ names : List Name,
        names ≠ [] ∧ names.map .child <+: front ∧ loc = names.reverse ++ here := by
  induction front generalizing here with
  | nil => cases member
  | cons component rest ih =>
    cases component with
    | blank | stay | up | overlong => cases member
    | child name =>
      by_cases clear : IsClear (fs.get? (name :: here))
      · rw [survey_child_of_clear clear] at member
        rcases List.mem_cons.mp member with rfl | below
        · refine ⟨clear, [name], List.cons_ne_nil _ _, ?_, rfl⟩
          exact List.cons_prefix_cons.mpr ⟨rfl, List.nil_prefix⟩
        · obtain ⟨clearBelow, names, -, isPrefix, rfl⟩ := ih below
          refine ⟨clearBelow, name :: names, List.cons_ne_nil _ _, ?_, by simp⟩
          exact List.cons_prefix_cons.mpr ⟨rfl, isPrefix⟩
      · rw [survey_child_of_not_clear clear] at member
        cases member

theorem names_of_survey_eq_ok (surveyed : (fs.survey here front).result = .ok dir) :
    ∃ names : List Name, front = names.map .child ∧ dir = names.reverse ++ here := by
  induction front generalizing here with
  | nil =>
    cases surveyed
    exact ⟨[], rfl, rfl⟩
  | cons component rest ih =>
    cases component with
    | blank | stay | up | overlong => cases surveyed
    | child name =>
      by_cases clear : IsClear (fs.get? (name :: here))
      · rw [survey_child_of_clear clear] at surveyed
        obtain ⟨names, rfl, rfl⟩ := ih surveyed
        exact ⟨name :: names, rfl, by simp⟩
      · rw [survey_child_of_not_clear clear] at surveyed
        cases surveyed

theorem notMem_directories_survey (name : Name)
    (surveyed : (fs.survey here front).result = .ok dir) :
    name :: dir ∉ (fs.survey here front).directories := by
  intro member
  obtain ⟨-, names, -, isPrefix, same⟩ := mem_directories_survey member
  obtain ⟨all, rfl, rfl⟩ := names_of_survey_eq_ok surveyed
  -- It would take as many names as all there are and one more.
  have bound := isPrefix.length_le
  have lengths := congrArg List.length same
  simp only [List.length_map, List.length_cons, List.length_append, List.length_reverse]
    at bound lengths
  omega

theorem survey_congr
    (alike : ∀ names : List Name, names ≠ [] → names.map .child <+: front →
      (IsClear (after.get? (names.reverse ++ here)) ↔
        IsClear (before.get? (names.reverse ++ here)))) :
    after.survey here front = before.survey here front := by
  induction front generalizing here with
  | nil => rfl
  | cons component rest ih =>
    cases component with
    | blank | stay | up | overlong => rfl
    | child name =>
      have alikeHere : IsClear (after.get? (name :: here)) ↔ IsClear (before.get? (name :: here)) :=
        alike [name] (List.cons_ne_nil _ _) (List.cons_prefix_cons.mpr ⟨rfl, List.nil_prefix⟩)
      by_cases clear : IsClear (before.get? (name :: here))
      · -- The names of the rest are looked for one directory further down.
        have below : after.survey (name :: here) rest = before.survey (name :: here) rest := by
          apply ih
          intro names _ isPrefix
          have alikeBelow := alike (name :: names) (List.cons_ne_nil _ _)
            (List.cons_prefix_cons.mpr ⟨rfl, isPrefix⟩)
          rwa [List.reverse_cons, List.append_assoc, List.singleton_append] at alikeBelow
        rw [survey_child_of_clear clear, survey_child_of_clear (alikeHere.mpr clear), below]
      · rw [survey_child_of_not_clear clear, survey_child_of_not_clear (mt alikeHere.mp clear)]

/-! ## A survey of more components -/

theorem survey_append (surveyed : (fs.survey here front).result = .ok dir) :
    fs.survey here (front ++ more) =
      ⟨(fs.survey here front).directories ++ (fs.survey dir more).directories,
        (fs.survey dir more).result⟩ := by
  induction front generalizing here with
  | nil =>
    cases surveyed
    rfl
  | cons component rest ih =>
    cases component with
    | blank | stay | up | overlong => cases surveyed
    | child name =>
      by_cases clear : IsClear (fs.get? (name :: here))
      · rw [survey_child_of_clear clear] at surveyed
        rw [List.cons_append, survey_child_of_clear clear, survey_child_of_clear clear, ih surveyed,
          List.cons_append]
      · rw [survey_child_of_not_clear clear] at surveyed
        cases surveyed

theorem survey_append_of_nameTooLong
    (surveyed : (fs.survey here front).result = .error .nameTooLong) :
    fs.survey here (front ++ more) = fs.survey here front := by
  induction front generalizing here with
  | nil => cases surveyed
  | cons component rest ih =>
    cases component with
    | blank | stay | up | overlong => rfl
    | child name =>
      by_cases clear : IsClear (fs.get? (name :: here))
      · rw [survey_child_of_clear clear] at surveyed
        rw [List.cons_append, survey_child_of_clear clear, survey_child_of_clear clear, ih surveyed]
      · rw [survey_child_of_not_clear clear, Except.error.injEq] at surveyed
        split at surveyed <;> exact absurd surveyed (by decide)

/-! ## Surveys and descents -/

theorem survey_of_descend (descended : fs.descend here front = .ok dir) :
    (fs.survey here front).result = .ok dir ∧
      ∀ loc ∈ (fs.survey here front).directories, fs.get? loc = some .directory := by
  induction front generalizing here with
  | nil =>
    cases descended
    exact ⟨rfl, fun loc member => by cases member⟩
  | cons component rest ih =>
    cases component with
    | blank | stay | up | overlong => cases descended
    | child name =>
      rw [descend] at descended
      split at descended
      next => cases descended
      next present =>
        obtain ⟨result, stand⟩ := ih descended
        rw [survey_child_of_clear (.inr present)]
        exact ⟨result, List.forall_mem_cons.mpr ⟨present, stand⟩⟩
      next => cases descended

theorem survey_of_descend_error (descended : fs.descend here front = .error errno)
    (standing : errno ≠ .noEntry) :
    (fs.survey here (front ++ [last])).result = .error errno ∧
      ∀ loc ∈ (fs.survey here (front ++ [last])).directories, fs.get? loc = some .directory := by
  induction front generalizing here with
  | nil => cases descended
  | cons component rest ih =>
    cases component with
    | blank | stay | up | overlong =>
      cases descended
      exact ⟨rfl, fun loc member => by cases member⟩
    | child name =>
      rw [descend] at descended
      split at descended
      next =>
        cases descended
        exact absurd rfl standing
      next present =>
        obtain ⟨result, stand⟩ := ih descended
        rw [List.cons_append, survey_child_of_clear (.inr present)]
        exact ⟨result, List.forall_mem_cons.mpr ⟨present, stand⟩⟩
      next entry noDirectory present =>
        -- What is in the way is not the last of the names, so the error is the same.
        cases descended
        have notClear := not_isClear_iff.mpr ⟨entry, present, noDirectory⟩
        rw [List.cons_append, survey_child_of_not_clear notClear, if_neg (by simp)]
        exact ⟨rfl, fun loc member => by cases member⟩

theorem survey_of_free (free : fs.get? here = none) :
    (∃ dir, (fs.survey here front).result = .ok dir) ∨
      (fs.survey here front).result = .error .nameTooLong := by
  induction front generalizing here with
  | nil => exact .inl ⟨here, rfl⟩
  | cons component rest ih =>
    cases component with
    | blank | stay | up | overlong => exact .inr rfl
    | child name =>
      have freeBelow : fs.get? (name :: here) = none := by
        cases present : fs.get? (name :: here) with
        | none => rfl
        | some entry => cases free.symm.trans (fs.get?_parent present)
      rw [survey_child_of_clear (.inl freeBelow)]
      exact ih freeBelow

theorem survey_of_descend_noEntry (descended : fs.descend here front = .error .noEntry) :
    (∃ dir, (fs.survey here front).result = .ok dir) ∨
      (fs.survey here front).result = .error .nameTooLong := by
  induction front generalizing here with
  | nil => cases descended
  | cons component rest ih =>
    cases component with
    | blank | stay | up | overlong => cases descended
    | child name =>
      rw [descend] at descended
      split at descended
      next free =>
        rw [survey_child_of_clear (.inl free)]
        exact survey_of_free free
      next present =>
        rw [survey_child_of_clear (.inr present)]
        exact ih descended
      next => cases descended

theorem descend_of_survey (surveyed : (before.survey here front).result = .ok dir)
    (stand : ∀ loc ∈ (before.survey here front).directories, after.get? loc = some .directory) :
    after.descend here front = .ok dir := by
  induction front generalizing here with
  | nil =>
    cases surveyed
    rfl
  | cons component rest ih =>
    cases component with
    | blank | stay | up | overlong => cases surveyed
    | child name =>
      by_cases clear : IsClear (before.get? (name :: here))
      · rw [survey_child_of_clear clear] at surveyed stand
        obtain ⟨present, standBelow⟩ := List.forall_mem_cons.mp stand
        rw [descend, present]
        exact ih surveyed standBelow
      · rw [survey_child_of_not_clear clear] at surveyed
        cases surveyed

end FileSystem

end ElfCarve
