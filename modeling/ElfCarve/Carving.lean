import ElfCarve.Failure
import ElfCarve.Files
import ElfCarve.Image
import ElfCarve.Log.Event
import ElfCarve.Report

/-!
# Carving files

An image is carved out of one file and written to another, whose directory is made if it is
missing.  Each step gives what came of it, and the steps worth logging give their events as well.

* `ensureParent` makes the directory of a path.
* `readInput` and `writeOutput` are the two ends of the work.
* `carveFile` is the whole of it.
-/

namespace ElfCarve

open MonadFiles

abbrev Logged (α : Type) := List Event × α

variable {m : Type → Type} [Monad m] [MonadFiles m]

/-- Makes the directory that a path lies in, by the text of the path.  A failure names that
directory, whichever of those above it could not be made. -/
def ensureParent (path : Path) : m (Except Failure Unit) :=
  match path.parent? with
  | none => pure (.ok ())
  | some parent =>
    if parent.bytes = [] then pure (.ok ())
    else do return (← makeDirectories parent).mapError (.noAccess parent)

def readInput (path : Path) : m (Logged (Except Failure Bytes)) := do
  match ← contents? path with
  | .error cause => return ([], .error (.noAccess path cause))
  | .ok none => return ([], .error (.noInput path))
  | .ok (some data) => return ([.read data.length path], .ok data)

/-- Writes the output, in a directory that is made if it is missing. -/
def writeOutput (path : Path) (data : Bytes) : m (Except Failure Unit) := do
  match ← ensureParent path with
  | .error failure => return .error failure
  | .ok () => return (← write path data).mapError (.noAccess path)

def layoutEvents (input : Path) (layout : Layout) (padding : Bytes) : List Event :=
  let finding :=
    match layout with
    | .bare => .bareInput input
    | .padded _ => .paddedInput padding.length input
  if padding.any (· ≠ 0) then [finding, .filledPadding input layout.offset] else [finding]

/-- Carves the image out of the input and writes it to the output.  The output is touched only
after an image has been found. -/
def carveFile (input output : Path) : m (Logged (Except Failure Report)) := do
  let (events, read) ← readInput input
  match read with
  | .error failure => return (events, .error failure)
  | .ok data =>
    match carve? data with
    | none => return (events, .error (.noImage input))
    | some (layout, image) =>
      let written ← writeOutput output image
      let report := ⟨input, output, layout, layout.offset, image.length⟩
      return (events ++ layoutEvents input layout (padding layout data),
        written.map fun () => report)

end ElfCarve
