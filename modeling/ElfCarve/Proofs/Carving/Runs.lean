import ElfCarve.Carving
import ElfCarve.Proofs.FileSystem.Directories
import ElfCarve.Proofs.Path

/-!
# The ways a carving ends

A carving in a file system ends in one of a few ways, and each of them is a case of a relation
between the file system before, what comes of it, and the file system behind it.  What holds of
every carving is shown by going through these cases.

* `Delivery` is about the output: its directory is made, and then it is written.
* `Carving` is about the whole.
* `delivery` and `carving` say that what is computed is one of the cases.
-/

namespace ElfCarve

open FileSystem

variable {fs between after : FileSystem} {input output parent path : Path} {image : Bytes}
  {cause : Cause} {failure : Failure}

/-! ## The output -/

theorem run_ensureParent_of_parent (lies : path.parent? = some parent)
    (filled : parent.bytes ≠ []) :
    (ensureParent path : StateM FileSystem _) fs =
      ((((makeDirectories parent : StateM FileSystem _) fs).1).mapError (.noAccess parent),
        ((makeDirectories parent : StateM FileSystem _) fs).2) := by
  rw [ensureParent, lies]
  simp only [if_neg filled]
  rfl

theorem run_ensureParent_of_none (lies : path.parent? = none) :
    (ensureParent path : StateM FileSystem _) fs = (.ok (), fs) := by
  rw [ensureParent, lies]
  rfl

theorem run_ensureParent_of_empty (lies : path.parent? = some parent) (empty : parent.bytes = []) :
    (ensureParent path : StateM FileSystem _) fs = (.ok (), fs) := by
  rw [ensureParent, lies]
  simp only [if_pos empty]
  rfl

theorem ensureParent_adds (fs : FileSystem) (path : Path) :
    fs.AddsDirectories path.surroundings ((ensureParent path : StateM FileSystem _) fs).2 := by
  rw [Path.surroundings]
  cases lies : path.parent? with
  | none =>
    rw [run_ensureParent_of_none lies]
    exact .refl fs _
  | some parent =>
    by_cases empty : parent.bytes = []
    · rw [run_ensureParent_of_empty lies empty]
      exact .refl fs _
    · rw [run_ensureParent_of_parent lies empty]
      exact makeFirst_adds fs (parent :: parent.parents)

theorem ensureParent_eq_error
    (failed : (ensureParent path : StateM FileSystem _) fs = (.error failure, after)) :
    ∃ parent cause, path.parent? = some parent ∧ parent.bytes ≠ [] ∧
      (makeDirectories parent : StateM FileSystem _) fs = (.error cause, after) ∧
      failure = .noAccess parent cause := by
  cases lies : path.parent? with
  | none =>
    rw [run_ensureParent_of_none lies] at failed
    cases failed
  | some parent =>
    by_cases empty : parent.bytes = []
    · rw [run_ensureParent_of_empty lies empty] at failed
      cases failed
    · rw [run_ensureParent_of_parent lies empty] at failed
      cases made : (makeDirectories parent : StateM FileSystem _) fs with
      | mk result made =>
        rw [made] at failed
        cases result with
        | ok => cases failed
        | error cause =>
          cases failed
          exact ⟨parent, cause, rfl, empty, made, rfl⟩

theorem isDirectory_of_ensureParent (lies : path.parent? = some parent) (filled : parent.bytes ≠ [])
    (ensured : (ensureParent path : StateM FileSystem _) fs = (.ok (), between)) :
    between.isDirectory parent := by
  rw [run_ensureParent_of_parent lies filled] at ensured
  cases run : (makeDirectories parent : StateM FileSystem _) fs with
  | mk result made =>
    rw [run] at ensured
    cases result with
    | ok =>
      cases ensured
      exact isDirectory_of_makeFirst filled run
    | error => cases ensured

theorem ensureParent_of_isDirectory (lies : path.parent? = some parent) (filled : parent.bytes ≠ [])
    (stands : fs.isDirectory parent) :
    (ensureParent path : StateM FileSystem _) fs = (.ok (), fs) := by
  have made : (makeDirectories parent : StateM FileSystem _) fs = (.ok (), fs) :=
    makeFirst_of_isDirectory stands
  rw [run_ensureParent_of_parent lies filled, made]
  rfl

theorem ensureParent_again {between after : FileSystem}
    (ensured : (ensureParent path : StateM FileSystem _) fs = (.ok (), between))
    (grows : between.Grows after) :
    (ensureParent path : StateM FileSystem _) after = (.ok (), after) := by
  cases lies : path.parent? with
  | none => exact run_ensureParent_of_none lies
  | some parent =>
    by_cases empty : parent.bytes = []
    · exact run_ensureParent_of_empty lies empty
    · have stands := isDirectory_of_ensureParent lies empty ensured
      exact ensureParent_of_isDirectory lies empty (isDirectory_of_grows grows stands)

theorem run_writeOutput_of_error
    (ensured : (ensureParent path : StateM FileSystem _) fs = (.error failure, between)) :
    (writeOutput path image : StateM FileSystem _) fs = (.error failure, between) := by
  rw [writeOutput, run_bind, ensured]
  rfl

theorem run_writeOutput_of_ensured
    (ensured : (ensureParent path : StateM FileSystem _) fs = (.ok (), between)) :
    (writeOutput path image : StateM FileSystem _) fs =
      ((attempt (·.write path image) between).1.mapError (.noAccess path),
        (attempt (·.write path image) between).2) := by
  rw [writeOutput, run_bind, ensured]
  rfl

theorem run_writeOutput_of_ok
    (ensured : (ensureParent path : StateM FileSystem _) fs = (.ok (), between)) :
    (writeOutput path image : StateM FileSystem _) fs =
      match between.write path image with
      | .ok after => (.ok (), after)
      | .error cause => (.error (.noAccess path cause), between) := by
  rw [run_writeOutput_of_ensured ensured, attempt]
  cases between.write path image <;> rfl

inductive Delivery (fs : FileSystem) (output : Path) (image : Bytes) :
    Except Failure Unit → FileSystem → Prop
  | noParent {parent : Path} {cause : Cause} {between : FileSystem}
      (lies : output.parent? = some parent)
      (filled : parent.bytes ≠ [])
      (failed : (makeDirectories parent : StateM FileSystem _) fs = (.error cause, between))
      (ensured : (ensureParent output : StateM FileSystem _) fs =
        (.error (.noAccess parent cause), between)) :
      Delivery fs output image (.error (.noAccess parent cause)) between
  | refused {cause : Cause} {between : FileSystem}
      (ensured : (ensureParent output : StateM FileSystem _) fs = (.ok (), between))
      (failed : between.write output image = .error cause) :
      Delivery fs output image (.error (.noAccess output cause)) between
  | written {between after : FileSystem}
      (ensured : (ensureParent output : StateM FileSystem _) fs = (.ok (), between))
      (written : between.write output image = .ok after) :
      Delivery fs output image (.ok ()) after

theorem delivery (fs : FileSystem) (output : Path) (image : Bytes) :
    Delivery fs output image ((writeOutput output image : StateM FileSystem _) fs).1
      ((writeOutput output image : StateM FileSystem _) fs).2 := by
  cases ensured : (ensureParent output : StateM FileSystem _) fs with
  | mk result between =>
    cases result with
    | error failure =>
      -- The failure is that of the parent, and the output is not tried.
      rw [run_writeOutput_of_error ensured]
      obtain ⟨parent, cause, lies, filled, failed, rfl⟩ := ensureParent_eq_error ensured
      exact .noParent lies filled failed ensured
    | ok =>
      rw [run_writeOutput_of_ok ensured]
      cases written : between.write output image with
      | error cause => exact .refused ensured written
      | ok after => exact .written ensured written

/-- An output that cannot be delivered leaves nothing behind but directories around it. -/
theorem Delivery.adds_of_error (refused : Delivery fs output image (.error failure) after) :
    fs.AddsDirectories output.surroundings after := by
  have adds := ensureParent_adds fs output
  cases refused with
  | noParent _ _ _ ensured | refused ensured _ =>
    rw [ensured] at adds
    exact adds

/-- An output that is delivered is the whole of the file that its path leads to, unless that is a
device.  Nothing else happens than that directories are added around it. -/
theorem Delivery.effect_of_ok (delivered : Delivery fs output image (.ok ()) after) :
    ∃ between, fs.AddsDirectories output.surroundings between ∧
      ((after = between ∧ ∃ device, after.entryAt? output = some (.device device)) ∨
        ∃ loc, between.Sets loc (.file image) after ∧ after.target? output = some loc ∧
          ∀ old, between.get? loc = some old → old.SameKind (.file image)) := by
  have adds := ensureParent_adds fs output
  cases delivered with
  | @written between _ ensured written =>
    rw [ensured] at adds
    refine ⟨between, adds, ?_⟩
    rcases write_eq_ok written with ⟨rfl, device⟩ | stored
    · exact .inl ⟨rfl, device⟩
    · exact .inr stored

/-! ## The whole -/

def findings (input : Path) (layout : Layout) (data : Bytes) : List Event :=
  .read data.length input :: layoutEvents input layout (padding layout data)

inductive Carving (fs : FileSystem) (input output : Path) :
    Logged (Except Failure Report) → FileSystem → Prop
  | noInput (missing : fs.contents? input = none) :
      Carving fs input output ([], .error (.noInput input)) fs
  | noImage {data : Bytes} (read : fs.contents? input = some data)
      (imageless : carve? data = none) :
      Carving fs input output ([.read data.length input], .error (.noImage input)) fs
  | refused {data image : Bytes} {layout : Layout} {failure : Failure} {after : FileSystem}
      (read : fs.contents? input = some data)
      (carved : carve? data = some (layout, image))
      (refused : Delivery fs output image (.error failure) after) :
      Carving fs input output (findings input layout data, .error failure) after
  | done {data image : Bytes} {layout : Layout} {after : FileSystem}
      (read : fs.contents? input = some data)
      (carved : carve? data = some (layout, image))
      (delivered : Delivery fs output image (.ok ()) after) :
      Carving fs input output
        (findings input layout data, .ok ⟨input, output, layout, layout.offset, image.length⟩) after

theorem run_readInput (fs : FileSystem) (input : Path) :
    (readInput input : StateM FileSystem _) fs =
      (match fs.contents? input with
        | none => ([], .error (.noInput input))
        | some data => ([.read data.length input], .ok data), fs) := by
  rw [readInput, run_bind, run_contents?]
  cases fs.contents? input <;> rfl

theorem run_carveFile (fs : FileSystem) (input output : Path) :
    (carveFile input output : StateM FileSystem _) fs =
      match fs.contents? input with
      | none => (([], .error (.noInput input)), fs)
      | some data =>
        match carve? data with
        | none => (([.read data.length input], .error (.noImage input)), fs)
        | some (layout, image) =>
          ((findings input layout data,
            ((writeOutput output image : StateM FileSystem _) fs).1.map fun () =>
              ⟨input, output, layout, layout.offset, image.length⟩),
            ((writeOutput output image : StateM FileSystem _) fs).2) := by
  rw [carveFile, run_bind, run_readInput]
  cases fs.contents? input with
  | none => rfl
  | some data =>
    dsimp only
    cases carve? data <;> rfl

theorem run_carveFile_of_carve? {data : Bytes} {layout : Layout}
    (read : fs.contents? input = some data) (carved : carve? data = some (layout, image)) :
    (carveFile input output : StateM FileSystem _) fs =
      ((findings input layout data,
        ((writeOutput output image : StateM FileSystem _) fs).1.map fun () =>
          ⟨input, output, layout, layout.offset, image.length⟩),
        ((writeOutput output image : StateM FileSystem _) fs).2) := by
  rw [run_carveFile, read]
  simp only [carved]

theorem carving (fs : FileSystem) (input output : Path) :
    Carving fs input output ((carveFile input output : StateM FileSystem _) fs).1
      ((carveFile input output : StateM FileSystem _) fs).2 := by
  rw [run_carveFile]
  cases read : fs.contents? input with
  | none => exact .noInput read
  | some data =>
    dsimp only
    cases carved : carve? data with
    | none => exact .noImage read carved
    | some found =>
      have delivered := delivery fs output found.2
      dsimp only
      cases result : ((writeOutput output found.2 : StateM FileSystem _) fs).1 with
      | error failure =>
        rw [result] at delivered
        exact .refused read carved delivered
      | ok =>
        rw [result] at delivered
        exact .done read carved delivered

theorem Carving.eq_ok {events : List Event} {report : Report}
    (ending : Carving fs input output (events, .ok report) after) :
    ∃ data layout image, fs.contents? input = some data ∧ carve? data = some (layout, image) ∧
      report = ⟨input, output, layout, layout.offset, image.length⟩ ∧
      Delivery fs output image (.ok ()) after := by
  cases ending with
  | done read carved delivered => exact ⟨_, _, _, read, carved, rfl, delivered⟩

theorem Carving.adds_of_error {events : List Event}
    (ending : Carving fs input output (events, .error failure) after) :
    fs.AddsDirectories output.surroundings after := by
  cases ending with
  | noInput | noImage => exact .refl fs _
  | refused _ _ refused => exact refused.adds_of_error

/-- A carving that succeeds has found an image and delivered it, and reports just that. -/
theorem carveFile_eq_ok {report : Report}
    (ended : ((carveFile input output : StateM FileSystem _) fs).1.2 = .ok report) :
    ∃ data layout image, fs.contents? input = some data ∧ carve? data = some (layout, image) ∧
      report = ⟨input, output, layout, layout.offset, image.length⟩ ∧
      Delivery fs output image (.ok ()) ((carveFile input output : StateM FileSystem _) fs).2 := by
  have ending : Carving fs input output
      (_, ((carveFile input output : StateM FileSystem _) fs).1.2) _ := carving fs input output
  rw [ended] at ending
  exact ending.eq_ok

end ElfCarve
