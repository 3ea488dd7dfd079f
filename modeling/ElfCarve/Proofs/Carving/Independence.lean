import ElfCarve.Proofs.Carving.Account
import ElfCarve.Proofs.Carving.Delivery

/-!
# Independent carvings

Two carvings by plain paths of which neither reads or overwrites what the other one writes do not
notice each other, although they may make the same directories.  What one of them puts in place
changes nothing that the other one looks at, so both have the same results and the same effect in
either order.
-/

namespace ElfCarve

open FileSystem Overlay

variable {fs other : FileSystem} {input output path : Path} {overlay : Overlay} {loc : Location}
  {front : List Bytes} {last image : Bytes}

/-- An overlay keeps to a path: it puts directories where they stand or can stand on the way to the
path, and files at the path itself. -/
def FileSystem.KeepsTo (fs : FileSystem) (path : Path) (overlay : Overlay) : Prop :=
  ∀ loc entry, overlay loc = some entry →
    (entry = .directory ∧ path.Passes fs.workingDirectory loc ∧ IsClear (fs.get? loc)) ∨
      ((∃ content, entry = .file content) ∧ path.Names fs.workingDirectory loc)

theorem keepsTo_nothing : fs.KeepsTo path nothing :=
  fun _ _ put => nomatch put

theorem FileSystem.KeepsTo.linkFree (keeps : fs.KeepsTo path overlay) (linkFree : fs.LinkFree)
    (laid : fs.Overlaid overlay other) : other.LinkFree := by
  refine linkFree.overlaid laid fun loc target put => ?_
  rcases keeps loc _ put with ⟨isDirectory, -⟩ | ⟨⟨content, isFile⟩, -⟩
  · cases isDirectory
  · cases isFile

/-! ## What a carving puts in place -/

theorem keepsTo_directories_survey (fs : FileSystem) (names : Path.AreNames (front ++ [last])) :
    fs.KeepsTo (.ofSegments (front ++ [last]))
      (directories
        (fs.survey fs.workingDirectory (front.map Component.ofSegment)).directories) := by
  intro loc entry put
  obtain ⟨member, isDirectory⟩ := directories_eq_some put
  obtain ⟨clear, chain, -, isPrefix, rfl⟩ := mem_directories_survey member
  exact .inl ⟨isDirectory, Path.passes_of_prefix names isPrefix, clear⟩

theorem keepsTo_account (names : Path.AreNames (front ++ [last])) :
    fs.KeepsTo (.ofSegments (front ++ [last])) (fs.account front last image).overlay := by
  have keepsDirectories := keepsTo_directories_survey fs names
  unfold account
  dsimp only
  split
  next => exact keepsTo_nothing
  next => exact keepsDirectories
  next => exact keepsDirectories
  next dir _ surveyed _ =>
    split
    next => exact keepsDirectories
    next overlay deposited =>
      obtain ⟨name, isChild, told⟩ := deposit_eq_ok deposited
      obtain ⟨chain, areChildren, rfl⟩ := names_of_survey_eq_ok surveyed
      intro loc entry put
      rcases atop_eq_some put with here | below
      · rcases told with rfl | rfl
        · cases here
        · obtain ⟨rfl, rfl⟩ := file_eq_some here
          exact .inr ⟨⟨image, rfl⟩, Path.names_concat names areChildren isChild⟩
      · exact keepsDirectories loc entry below

def FileSystem.carvingOverlay (fs : FileSystem) (input : Path) (front : List Bytes) (last : Bytes) :
    Overlay :=
  match (fs.contents? input).bind carve? with
  | none => nothing
  | some (_, image) => (fs.account front last image).overlay

theorem keepsTo_carvingOverlay (names : Path.AreNames (front ++ [last])) :
    fs.KeepsTo (.ofSegments (front ++ [last])) (fs.carvingOverlay input front last) := by
  unfold carvingOverlay
  split
  next => exact keepsTo_nothing
  next => exact keepsTo_account names

theorem overlaid_carvingOverlay (linkFree : fs.LinkFree) (names : Path.AreNames (front ++ [last])) :
    fs.Overlaid (fs.carvingOverlay input front last)
      ((carveFile input (.ofSegments (front ++ [last])) : StateM FileSystem _) fs).2 := by
  rw [run_carveFile, carvingOverlay]
  cases fs.contents? input with
  | none => exact .refl fs
  | some data =>
    dsimp only [Option.bind_some]
    cases carve? data with
    | none => exact .refl fs
    | some found => exact (account_tells found.2 linkFree names).overlaid

/-! ## What the other carving makes of it -/

section Other

variable (laid : fs.Overlaid overlay other) (keeps : fs.KeepsTo path overlay)

include laid keeps

theorem isClear_iff_of_keepsTo (apart : path.Apart output)
    (passes : output.Passes fs.workingDirectory loc) :
    IsClear (other.get? loc) ↔ IsClear (fs.get? loc) := by
  cases here : overlay loc with
  | none => rw [laid.elsewhere here]
  | some entry =>
    rcases keeps loc entry here with ⟨rfl, -, clear⟩ | ⟨-, named⟩
    · exact iff_of_true (.inr (laid.put here)) clear
    · -- A file is put at the path itself, which is not on the way.
      exact absurd (passes.prefix_of_names named) apart.1

theorem get?_of_keepsTo (apart : path.Apart output)
    (named : output.Names fs.workingDirectory loc) : other.get? loc = fs.get? loc := by
  apply laid.elsewhere
  by_contra put
  obtain ⟨entry, here⟩ := Option.ne_none_iff_exists'.mp put
  rcases keeps loc entry here with ⟨-, passes, -⟩ | ⟨-, namedToo⟩
  · exact apart.2 (passes.prefix_of_names named)
  · exact apart.1 (named.passes.prefix_of_names namedToo)

theorem account_of_keepsTo (names : Path.AreNames (front ++ [last]))
    (apart : path.Apart (.ofSegments (front ++ [last]))) :
    other.account front last image = fs.account front last image := by
  -- The account looks at the way to the output and at the output.
  have surveyed : other.survey other.workingDirectory (front.map Component.ofSegment) =
      fs.survey fs.workingDirectory (front.map Component.ofSegment) := by
    rw [laid.workingDirectory]
    apply survey_congr
    intro chain _ isPrefix
    exact isClear_iff_of_keepsTo laid keeps apart (Path.passes_of_prefix names isPrefix)
  have deposited {dir : Location}
      (result : (fs.survey fs.workingDirectory (front.map Component.ofSegment)).result = .ok dir) :
      other.deposit dir image (Component.ofSegment last) =
        fs.deposit dir image (Component.ofSegment last) := by
    obtain ⟨chain, areChildren, rfl⟩ := names_of_survey_eq_ok result
    apply deposit_congr
    intro name isChild
    exact get?_of_keepsTo laid keeps apart (Path.names_concat names areChildren isChild)
  simp only [account, surveyed]
  cases (Path.ofSegments front).fault? with
  | some => rfl
  | none =>
    cases result : (fs.survey fs.workingDirectory (front.map Component.ofSegment)).result with
    | error => rfl
    | ok dir =>
      cases (Path.ofSegments (front ++ [last])).fault? with
      | some => rfl
      | none => simp only [deposited result]

theorem contents?_of_keepsTo (linkFree : fs.LinkFree) (plain : input.IsPlain)
    (different : input ≠ path) : other.contents? input = fs.contents? input := by
  have sameFile (loc : Location) (content : Bytes) (named : input.Names fs.workingDirectory loc) :
      other.get? loc = some (.file content) ↔ fs.get? loc = some (.file content) := by
    cases here : overlay loc with
    | none => rw [laid.elsewhere here]
    | some entry =>
      -- Where a directory is put there was no file before either.
      rcases keeps loc entry here with ⟨rfl, -, free | isDirectory⟩ | ⟨-, namedToo⟩
      · simp [laid.put here, free]
      · simp [laid.put here, isDirectory]
      · exact absurd (named.eq namedToo) different
  refine Option.ext fun content => ?_
  rw [contents?_eq_some_iff_of_isPlain (keeps.linkFree linkFree laid) plain,
    contents?_eq_some_iff_of_isPlain linkFree plain, laid.workingDirectory]
  refine and_congr_right fun _ => exists_congr fun loc => and_congr_right fun named => ?_
  exact sameFile loc content named

theorem carvingOverlay_of_keepsTo (linkFree : fs.LinkFree) (plain : input.IsPlain)
    (different : input ≠ path) (names : Path.AreNames (front ++ [last]))
    (apart : path.Apart (.ofSegments (front ++ [last]))) :
    other.carvingOverlay input front last = fs.carvingOverlay input front last := by
  rw [carvingOverlay, carvingOverlay, contents?_of_keepsTo laid keeps linkFree plain different]
  split
  next => rfl
  next => rw [account_of_keepsTo laid keeps names apart]

theorem run_carveFile_of_keepsTo (linkFree : fs.LinkFree) (plain : input.IsPlain)
    (different : input ≠ path) (names : Path.AreNames (front ++ [last]))
    (apart : path.Apart (.ofSegments (front ++ [last]))) :
    ((carveFile input (.ofSegments (front ++ [last])) : StateM FileSystem _) other).1 =
      ((carveFile input (.ofSegments (front ++ [last])) : StateM FileSystem _) fs).1 := by
  rw [run_carveFile, run_carveFile, contents?_of_keepsTo laid keeps linkFree plain different]
  cases fs.contents? input with
  | none => rfl
  | some data =>
    dsimp only
    cases carve? data with
    | none => rfl
    | some found =>
      have tellsOther := account_tells found.2 (keeps.linkFree linkFree laid) names
      have tells := account_tells found.2 linkFree names
      dsimp only
      rw [tellsOther.result, tells.result, account_of_keepsTo laid keeps names apart]

end Other

/-! ## Either order -/

theorem FileSystem.KeepsTo.agrees {first second : Path} {upper lower : Overlay}
    (keepsFirst : fs.KeepsTo first upper) (keepsSecond : fs.KeepsTo second lower)
    (apart : first.Apart second) : upper.Agrees lower := by
  intro loc a b put putToo
  -- Two directories are one entry.  A file clashes only if one path is on the way to the other.
  rcases keepsFirst loc a put with ⟨rfl, passes, -⟩ | ⟨-, named⟩
  · rcases keepsSecond loc b putToo with ⟨rfl, -⟩ | ⟨-, named⟩
    · rfl
    · exact absurd (passes.prefix_of_names named) apart.2
  · rcases keepsSecond loc b putToo with ⟨-, passes, -⟩ | ⟨-, namedToo⟩
    · exact absurd (passes.prefix_of_names named) apart.1
    · exact absurd (namedToo.passes.prefix_of_names named) apart.1

/-- Two carvings without links commute if their outputs are apart and neither reads what the other
one writes.  Whether they succeed or fail, each gives and logs the same in either order. -/
theorem carveFile_commutes {otherInput otherOutput : Path} (linkFree : fs.LinkFree)
    (inputPlain : input.IsPlain) (outputPlain : output.IsPlain)
    (otherInputPlain : otherInput.IsPlain) (otherOutputPlain : otherOutput.IsPlain)
    (apart : output.Apart otherOutput) (unread : otherInput ≠ output)
    (otherUnread : input ≠ otherOutput) :
    let one : StateM FileSystem _ := carveFile input output
    let two : StateM FileSystem _ := carveFile otherInput otherOutput
    (two (one fs).2).2 = (one (two fs).2).2 ∧
      (one (two fs).2).1 = (one fs).1 ∧ (two (one fs).2).1 = (two fs).1 := by
  obtain ⟨front, last, names, -, rfl⟩ := outputPlain.exists_concat
  obtain ⟨otherFront, otherLast, otherNames, -, rfl⟩ := otherOutputPlain.exists_concat
  intro one two
  have laid : fs.Overlaid (fs.carvingOverlay input front last) (one fs).2 :=
    overlaid_carvingOverlay linkFree names
  have keeps : fs.KeepsTo _ (fs.carvingOverlay input front last) := keepsTo_carvingOverlay names
  have otherLaid : fs.Overlaid (fs.carvingOverlay otherInput otherFront otherLast) (two fs).2 :=
    overlaid_carvingOverlay linkFree otherNames
  have otherKeeps : fs.KeepsTo _ (fs.carvingOverlay otherInput otherFront otherLast) :=
    keepsTo_carvingOverlay otherNames
  -- In either order, the second carving puts in place what it would have put there alone.
  have oneAfter : (two fs).2.Overlaid (fs.carvingOverlay input front last) (one (two fs).2).2 := by
    rw [← carvingOverlay_of_keepsTo otherLaid otherKeeps linkFree inputPlain otherUnread names
      apart.symm]
    exact overlaid_carvingOverlay (otherKeeps.linkFree linkFree otherLaid) names
  have twoAfter : (one fs).2.Overlaid (fs.carvingOverlay otherInput otherFront otherLast)
      (two (one fs).2).2 := by
    rw [← carvingOverlay_of_keepsTo laid keeps linkFree otherInputPlain unread otherNames apart]
    exact overlaid_carvingOverlay (keeps.linkFree linkFree laid) otherNames
  refine ⟨laid.exchange twoAfter otherLaid oneAfter (keeps.agrees otherKeeps apart), ?_, ?_⟩
  · exact run_carveFile_of_keepsTo otherLaid otherKeeps linkFree inputPlain otherUnread names
      apart.symm
  · exact run_carveFile_of_keepsTo laid keeps linkFree otherInputPlain unread otherNames apart

/-- A working directory with a file `a` of one byte of padding and a magic. -/
def paddedSample : FileSystem :=
  fresh.add [session, temporary] ⟨Utf8.encode "a", valid_a⟩ (.file (0 :: magic))

/-- Two carvings of one input make the directory that both outputs lie in, and one of them goes on
below it where the other one has its file. -/
theorem carveFile_commutes_in_new_directory :
    let one : StateM FileSystem _ := carveFile (.ofText "a") (.ofText "new/b")
    let two : StateM FileSystem _ := carveFile (.ofText "a") (.ofText "new/deep/b")
    (two (one paddedSample).2).2 = (one (two paddedSample).2).2 ∧
      (one (two paddedSample).2).1.2 =
        .ok ⟨.ofText "a", .ofText "new/b", .padded 1, 1, 4⟩ ∧
      (two (one paddedSample).2).1.2 =
        .ok ⟨.ofText "a", .ofText "new/deep/b", .padded 1, 1, 4⟩ ∧
      paddedSample.isDirectory (.ofText "new") = false := by
  have linkFree : paddedSample.LinkFree := linkFree_fresh.add (by simp)
  have inputPlain : (Path.ofText "a").IsPlain := by decide +kernel
  have onePlain : (Path.ofText "new/b").IsPlain := by decide +kernel
  have twoPlain : (Path.ofText "new/deep/b").IsPlain := by decide +kernel
  have apart : (Path.ofText "new/b").Apart (.ofText "new/deep/b") := by decide +kernel
  obtain ⟨sameTree, sameOne, sameTwo⟩ := carveFile_commutes linkFree inputPlain onePlain inputPlain
    twoPlain apart (by decide +kernel) (by decide +kernel)
  refine ⟨sameTree, ?_, ?_, by decide +kernel⟩
  · rw [sameOne]
    cbv
  · rw [sameTwo]
    cbv

end ElfCarve
