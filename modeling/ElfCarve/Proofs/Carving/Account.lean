import ElfCarve.Proofs.Carving.Runs
import ElfCarve.Proofs.FileSystem.Deposit
import ElfCarve.Proofs.FileSystem.Furnishing

/-!
# What a delivery by a plain path comes to

In a file system without links, what comes of delivering an image by a plain path can be told before
it happens.  The account of a delivery is made from the survey of its directories and the deposit of
the image; it gives the result of the delivery and the entries that are put in place.
-/

namespace ElfCarve

open FileSystem Overlay

structure Account where
  overlay : Overlay
  result : Except Failure Unit

structure Account.Tells (account : Account) (before : FileSystem)
    (ended : Except Failure Unit × FileSystem) : Prop where
  result : ended.1 = account.result
  overlaid : before.Overlaid account.overlay ended.2

variable {fs : FileSystem} {front : List Bytes} {last image : Bytes} {cause : Cause}

def FileSystem.account (fs : FileSystem) (front : List Bytes) (last image : Bytes) : Account :=
  let parent : Path := .ofSegments front
  let output : Path := .ofSegments (front ++ [last])
  let survey := fs.survey fs.workingDirectory (front.map Component.ofSegment)
  match parent.fault?, survey.result, output.fault? with
  | some cause, _, _ => ⟨nothing, .error (.noAccess parent cause)⟩
  | none, .error errno, _ =>
    ⟨directories survey.directories, .error (.noAccess parent (.system errno))⟩
  | none, .ok _, some cause => ⟨directories survey.directories, .error (.noAccess output cause)⟩
  | none, .ok dir, none =>
    match fs.deposit dir image (Component.ofSegment last) with
    | .error errno => ⟨directories survey.directories, .error (.noAccess output (.system errno))⟩
    | .ok overlay => ⟨overlay.atop (directories survey.directories), .ok ()⟩

theorem run_ensureParent_concat (names : Path.AreNames (front ++ [last])) :
    (ensureParent (.ofSegments (front ++ [last])) : StateM FileSystem _) fs =
      (((makeDirectories (.ofSegments front) : StateM FileSystem _) fs).1.mapError
          (.noAccess (.ofSegments front)),
        ((makeDirectories (.ofSegments front) : StateM FileSystem _) fs).2) := by
  have lies := Path.parent?_ofSegments_concat names
  by_cases empty : front = []
  · subst empty
    rw [run_ensureParent_of_empty lies rfl, run_makeDirectories_of_nil]
    rfl
  · exact run_ensureParent_of_parent lies (Path.bytes_ne_nil_of_areNames names.of_concat empty)

/-- Once the directories of a survey stand, content is taken as the file system before them tells:
the directories that were made are all above the name of the output. -/
theorem write_after_survey {between : FileSystem} {dir : Location} {locs : List Location}
    (image : Bytes) (linkFree : fs.LinkFree) (names : Path.AreNames (front ++ [last]))
    (walkable : Walkable (.ofSegments (front ++ [last])))
    (surveyed : fs.survey fs.workingDirectory (front.map Component.ofSegment) = ⟨locs, .ok dir⟩)
    (laid : fs.Overlaid (directories locs) between) :
    (∃ errno, fs.deposit dir image (Component.ofSegment last) = .error errno ∧
      between.write (.ofSegments (front ++ [last])) image = .error (.system errno)) ∨
    ∃ overlay after, fs.deposit dir image (Component.ofSegment last) = .ok overlay ∧
      between.write (.ofSegments (front ++ [last])) image = .ok after ∧
      between.Overlaid overlay after := by
  have result : (fs.survey fs.workingDirectory (front.map Component.ofSegment)).result =
      .ok dir := by rw [surveyed]
  have locs_eq : (fs.survey fs.workingDirectory (front.map Component.ofSegment)).directories =
      locs := by rw [surveyed]
  have descended : between.descend between.workingDirectory (front.map Component.ofSegment) =
      .ok dir := by
    rw [laid.workingDirectory]
    exact descend_of_survey result fun loc member => laid.put (if_pos (locs_eq ▸ member))
  -- No directory is made under the last name, so what stands there is as it was.
  have deposited : between.deposit dir image (Component.ofSegment last) =
      fs.deposit dir image (Component.ofSegment last) := by
    apply deposit_congr
    intro name _
    have below := notMem_directories_survey name result
    rw [locs_eq] at below
    exact laid.elsewhere (if_neg below)
  rw [← deposited]
  exact write_names image (linkFree.overlaid_directories laid) names walkable descended

/-- Every delivery by a plain path ends as its account tells. -/
theorem account_tells (image : Bytes) (linkFree : fs.LinkFree)
    (names : Path.AreNames (front ++ [last])) :
    (fs.account front last image).Tells fs
      ((writeOutput (.ofSegments (front ++ [last])) image : StateM FileSystem _) fs) := by
  have filled := Path.bytes_ne_nil_of_areNames names (by simp)
  have ensured : (ensureParent (.ofSegments (front ++ [last])) : StateM FileSystem _) fs = _ :=
    run_ensureParent_concat names
  cases parentFault : (Path.ofSegments front).fault? with
  | some cause =>
    have told : fs.account front last image =
        ⟨nothing, .error (.noAccess (.ofSegments front) cause)⟩ := by
      simp only [account, parentFault]
    have parentFilled : (Path.ofSegments front).bytes ≠ [] := by
      intro empty
      rw [Path.fault?, empty] at parentFault
      cases parentFault
    rw [run_makeDirectories_of_fault parentFilled parentFault] at ensured
    rw [told, run_writeOutput_of_error ensured]
    exact ⟨rfl, .refl fs⟩
  | none =>
    have walkable : front = [] ∨ Walkable (.ofSegments front) := by
      by_cases empty : front = []
      · exact .inl empty
      · have someBytes := Path.bytes_ne_nil_of_areNames names.of_concat empty
        exact .inr (walkable_iff.mpr ⟨someBytes, parentFault⟩)
    obtain ⟨made, laid⟩ := bears_makeDirectories linkFree names.of_concat walkable
    generalize surveyed : fs.survey fs.workingDirectory (front.map Component.ofSegment) = survey
      at made laid
    obtain ⟨locs, result⟩ := survey
    rw [made] at ensured
    cases result with
    | error errno =>
      have told : fs.account front last image =
          ⟨directories locs, .error (.noAccess (.ofSegments front) (.system errno))⟩ := by
        simp only [account, parentFault, surveyed]
      rw [told, run_writeOutput_of_error ensured]
      exact ⟨rfl, laid⟩
    | ok dir =>
      rw [run_writeOutput_of_ok ensured]
      cases outputFault : (Path.ofSegments (front ++ [last])).fault? with
      | some cause =>
        have told : fs.account front last image =
            ⟨directories locs, .error (.noAccess (.ofSegments (front ++ [last])) cause)⟩ := by
          simp only [account, parentFault, surveyed, outputFault]
        rw [told, write, resolve_of_fault filled outputFault]
        exact ⟨rfl, laid⟩
      | none =>
        have walkable := walkable_iff.mpr ⟨filled, outputFault⟩
        rcases write_after_survey image linkFree names walkable surveyed laid with
          ⟨errno, refused, failed⟩ | ⟨overlay, after, taken, written, stored⟩
        · have told : fs.account front last image = ⟨directories locs,
              .error (.noAccess (.ofSegments (front ++ [last])) (.system errno))⟩ := by
            simp only [account, parentFault, surveyed, outputFault, refused]
          rw [told, failed]
          exact ⟨rfl, laid⟩
        · have told : fs.account front last image =
              ⟨overlay.atop (directories locs), .ok ()⟩ := by
            simp only [account, parentFault, surveyed, outputFault, taken]
          rw [told, written]
          exact ⟨rfl, laid.trans stored⟩

end ElfCarve
