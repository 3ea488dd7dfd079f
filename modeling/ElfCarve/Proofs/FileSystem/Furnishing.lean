import ElfCarve.Proofs.FileSystem.Survey

/-!
# Making the directories of a plain path

A survey tells what comes of making the directories of a plain path: the result, and the directories
that stand afterwards.  Nothing else is different.
-/

namespace ElfCarve.FileSystem

open Overlay

variable {fs between : FileSystem} {dir : Location} {front segments : List Bytes} {last : Bytes}
  {cause : Cause} {errno : Errno} {p : Path}

/-- A computation ends as a survey says and leaves the directories of the survey behind. -/
structure Bears (before : FileSystem) (survey : Survey) (ended : Except Cause Unit × FileSystem) :
    Prop where
  result : ended.1 = (survey.result.map fun _ => ()).mapError .system
  overlaid : before.Overlaid (directories survey.directories) ended.2

/-! ## One directory, by what becomes of its path -/

section Resolved

variable {loc : Location} {name : Name}

theorem secureDirectory_of_resolve_error (failed : ∀ intent, fs.resolve intent p = .error cause) :
    fs.secureDirectory p = (.error cause, fs) := by
  have notThere : fs.isDirectory p = false := by
    rw [isDirectory, entryAt?, target?, failed]
    rfl
  have notMade : fs.makeDirectory p = .error cause := by rw [makeDirectory, place, failed]
  rw [secureDirectory, notMade]
  simp [notThere]

theorem secureDirectory_of_resolve_free
    (resolved : ∀ intent, fs.resolve intent p = .ok (.free dir name)) :
    fs.secureDirectory p = (.ok (), fs.add dir name .directory) := by
  have made : fs.makeDirectory p = .ok (fs.add dir name .directory) := by
    rw [makeDirectory, place, resolved]
  rw [secureDirectory, made]

theorem secureDirectory_of_resolve_found
    (resolved : ∀ intent, fs.resolve intent p = .ok (.found loc)) :
    fs.secureDirectory p =
      (if fs.get? loc = some .directory then .ok () else .error (.system .alreadyExists), fs) := by
  have taken : fs.makeDirectory p = .error (.system .alreadyExists) := by
    rw [makeDirectory, place, resolved]
  have leads : fs.target? p = some loc := by rw [target?, resolved]
  rw [secureDirectory, taken]
  by_cases stands : fs.get? loc = some .directory
  · simp [isDirectory, entryAt?, leads, stands]
  · simp [isDirectory, entryAt?, leads, stands]

end Resolved

section Names

variable (linkFree : fs.LinkFree) (names : Path.AreNames (front ++ [last]))
  (walkable : Walkable (.ofSegments (front ++ [last])))

include linkFree names walkable

theorem secureDirectory_of_descend_error
    (descended : fs.descend fs.workingDirectory (front.map Component.ofSegment) = .error errno) :
    fs.secureDirectory (.ofSegments (front ++ [last])) = (.error (.system errno), fs) := by
  apply secureDirectory_of_resolve_error
  intro intent
  rw [resolve_names _ linkFree names walkable, descended]
  rfl

theorem makeDirectory_eq_noEntry_iff :
    fs.makeDirectory (.ofSegments (front ++ [last])) = .error (.system .noEntry) ↔
      fs.descend fs.workingDirectory (front.map Component.ofSegment) = .error .noEntry := by
  rw [makeDirectory, place, resolve_names _ linkFree names walkable]
  cases fs.descend fs.workingDirectory (front.map Component.ofSegment) with
  | error errno => simp [Except.bind, Except.mapError]
  | ok dir =>
    -- What stands in a directory can be taken or too long, but has a place.
    cases Component.ofSegment last with
    | blank | stay | up | overlong =>
      simp [Except.bind, Except.mapError, arrive, Errno.nameTooLong, Errno.noEntry]
    | child name =>
      cases present : fs.get? (name :: dir) with
      | none => simp [Except.bind, Except.mapError, arrive, present]
      | some entry =>
        simp [Except.bind, Except.mapError, arrive, present, Errno.alreadyExists, Errno.noEntry]

theorem bears_secureDirectory
    (descended : fs.descend fs.workingDirectory (front.map Component.ofSegment) = .ok dir) :
    fs.Bears (fs.survey dir [Component.ofSegment last])
      (fs.secureDirectory (.ofSegments (front ++ [last]))) := by
  have resolved (intent : Intent) := resolve_names intent linkFree names walkable
  simp only [descended, Except.bind] at resolved
  cases component : Component.ofSegment last with
  | blank | stay | up | overlong =>
    rw [component] at resolved
    rw [secureDirectory_of_resolve_error resolved]
    exact ⟨rfl, .refl fs⟩
  | child name =>
    rw [component] at resolved
    simp only [arrive] at resolved
    obtain ⟨dirStands, -⟩ := (descend_eq_ok_iff fs.get?_workingDirectory).mp descended
    cases present : fs.get? (name :: dir) with
    | none =>
      simp only [present] at resolved
      rw [secureDirectory_of_resolve_free resolved, survey_child_of_clear (.inl present)]
      exact ⟨rfl, (sets_add dirStands present .directory).overlaid_directory⟩
    | some entry =>
      simp only [present] at resolved
      rw [secureDirectory_of_resolve_found resolved]
      by_cases stands : fs.get? (name :: dir) = some .directory
      · -- It stands there already, and making it comes to nothing.
        rw [if_pos stands, survey_child_of_clear (.inr stands)]
        refine ⟨rfl, .of_directories fun loc member => ?_⟩
        cases List.mem_singleton.mp member
        exact stands
      · have notClear : ¬ IsClear (fs.get? (name :: dir)) :=
          not_isClear_iff.mpr ⟨entry, present, fun isDirectory => stands (isDirectory ▸ present)⟩
        rw [if_neg stands, survey_child_of_not_clear notClear]
        exact ⟨rfl, .refl fs⟩

end Names

/-! ## All the directories -/

theorem Walkable.of_concat (walkable : Walkable (.ofSegments (front ++ [last])))
    (names : Path.AreNames (front ++ [last])) :
    front = [] ∨ Walkable (.ofSegments front) := by
  by_cases empty : front = []
  · exact .inl empty
  have filled := Path.bytes_ne_nil_of_areNames names.of_concat empty
  exact .inr (walkable.of_prefix (Path.prefix_ofSegments_concat front last) filled)

theorem run_makeDirectories_of_nil :
    (makeDirectories (.ofSegments []) : StateM FileSystem _) fs = (.ok (), fs) :=
  run_makeFirst_of_empty rfl

theorem run_makeDirectories_of_fault (filled : p.bytes ≠ []) (fault : p.fault? = some cause) :
    (makeDirectories p : StateM FileSystem _) fs = (.error cause, fs) := by
  have failed (intent : Intent) : fs.resolve intent p = .error cause :=
    resolve_of_fault filled fault
  have place : fs.makeDirectory p ≠ .error (.system .noEntry) := by
    intro noPlace
    rw [makeDirectory, FileSystem.place, failed] at noPlace
    cases noPlace
    exact fault?_ne_noEntry fault
  rw [makeDirectories, run_makeFirst_of_ne_noEntry filled place]
  exact secureDirectory_of_resolve_error failed

theorem isClear_iff_of_overlaid {locs : List Location}
    (laid : fs.Overlaid (directories locs) between)
    (clear : ∀ loc ∈ locs, IsClear (fs.get? loc)) (loc : Location) :
    IsClear (between.get? loc) ↔ IsClear (fs.get? loc) := by
  by_cases member : loc ∈ locs
  · have stands : between.get? loc = some .directory := laid.put (if_pos member)
    exact iff_of_true (.inr stands) (clear loc member)
  · rw [laid.elsewhere (if_neg member)]

theorem bears_concat (linkFree : fs.LinkFree) (names : Path.AreNames (front ++ [last]))
    (walkable : Walkable (.ofSegments (front ++ [last])))
    (surveyed : (fs.survey fs.workingDirectory (front.map Component.ofSegment)).result = .ok dir)
    (laid : fs.Overlaid
      (directories (fs.survey fs.workingDirectory (front.map Component.ofSegment)).directories)
      between) :
    fs.Bears (fs.survey fs.workingDirectory ((front ++ [last]).map Component.ofSegment))
      (between.secureDirectory (.ofSegments (front ++ [last]))) := by
  have descended : between.descend between.workingDirectory (front.map Component.ofSegment) =
      .ok dir := by
    rw [laid.workingDirectory]
    exact descend_of_survey surveyed fun loc member => laid.put (if_pos member)
  have secured :=
    bears_secureDirectory (linkFree.overlaid_directories laid) names walkable descended
  have sameSurvey : between.survey dir [Component.ofSegment last] =
      fs.survey dir [Component.ofSegment last] :=
    survey_congr fun _ _ _ =>
      isClear_iff_of_overlaid laid (fun loc member => (mem_directories_survey member).1) _
  rw [sameSurvey] at secured
  rw [List.map_append, List.map_singleton, survey_append surveyed]
  refine ⟨secured.result, ?_⟩
  rw [directories_append]
  exact laid.trans secured.overlaid

/-- Making the directories of a plain path ends as the survey says. -/
theorem bears_makeDirectories (linkFree : fs.LinkFree) (names : Path.AreNames segments)
    (walkable : segments = [] ∨ Walkable (.ofSegments segments)) :
    fs.Bears (fs.survey fs.workingDirectory (segments.map Component.ofSegment))
      ((makeDirectories (.ofSegments segments) : StateM FileSystem _) fs) := by
  induction segments using List.reverseRecOn with
  | nil =>
    rw [run_makeDirectories_of_nil]
    exact ⟨rfl, .refl fs⟩
  | append_singleton front last ih =>
    have walkable := walkable.resolve_left (by simp)
    have filled := Path.bytes_ne_nil_of_areNames names (by simp)
    have noPlace_iff := makeDirectory_eq_noEntry_iff linkFree names walkable
    have above := ih names.of_concat (walkable.of_concat names)
    rw [makeDirectories] at above ⊢
    rw [Path.parents_ofSegments_concat names]
    cases descended : fs.descend fs.workingDirectory (front.map Component.ofSegment) with
    | ok dir =>
      -- Everything above stands already.
      obtain ⟨surveyed, stand⟩ := survey_of_descend descended
      rw [run_makeFirst_of_ne_noEntry filled (by simp [noPlace_iff, descended])]
      exact bears_concat linkFree names walkable surveyed (.of_directories stand)
    | error errno =>
      by_cases missing : errno = .noEntry
      · subst missing
        rw [run_makeFirst_of_noEntry filled (noPlace_iff.mpr descended)]
        cases run : (makeFirst (.ofSegments front :: (Path.ofSegments front).parents) :
            StateM FileSystem _) fs with
        | mk made between =>
          rw [run] at above
          obtain ⟨result, laid⟩ := above
          rcases survey_of_descend_noEntry descended with ⟨dir, surveyed⟩ | overlong
          · -- What is missing above has been made.
            rw [surveyed] at result
            cases result
            exact bears_concat linkFree names walkable surveyed laid
          · -- A name above is too long, and what stands above it has been made.
            rw [overlong] at result
            cases result
            rw [List.map_append, survey_append_of_nameTooLong overlong]
            refine ⟨?_, laid⟩
            rw [overlong]
            rfl
      · -- Something is in the way.
        rw [run_makeFirst_of_ne_noEntry filled (by simp [noPlace_iff, descended, missing])]
        rw [secureDirectory_of_descend_error linkFree names walkable descended]
        obtain ⟨result, stand⟩ := survey_of_descend_error descended missing
        rw [List.map_append, List.map_singleton]
        refine ⟨?_, .of_directories stand⟩
        rw [result]
        rfl

end ElfCarve.FileSystem
