import ElfCarve.Cause
import ElfCarve.Path

/-!
# Access to files

The carver works in any monad that offers four file operations.  One such monad is a state that
holds a `FileSystem`; another is the world outside.

* `MonadFiles` lists the operations.
* `makeDirectories` makes a directory together with those above it that are missing.
-/

namespace ElfCarve

/-- What the carver asks of the files around it.  Paths are walked through links. -/
class MonadFiles (m : Type → Type) where
  /-- The content of the regular file that a path leads to, or `none` if it leads to no such
  file. -/
  contents? : Path → m (Except Cause (Option Bytes))
  isDirectory : Path → m Bool
  makeDirectory : Path → m (Except Cause Unit)
  /-- Makes content the whole content of a file, which is created if it is missing. -/
  write : Path → Bytes → m (Except Cause Unit)

open MonadFiles

variable {m : Type → Type} [Monad m] [MonadFiles m]

/-- The result of making a directory, where one that stands there already is as good as a new
one. -/
def orStanding (p : Path) : Except Cause Unit → m (Except Cause Unit)
  | .ok () => pure (.ok ())
  | .error cause => do
    if ← isDirectory p then pure (.ok ()) else pure (.error cause)

/-- Makes the first directory of a list, where each further one lies above the one before.  Only if
the first has no place to stand are those above it made, and then it is tried once more.  The empty
path stands for the working directory, which needs no making. -/
def makeFirst : List Path → m (Except Cause Unit)
  | [] => pure (.ok ())
  | p :: above => do
    if p.bytes = [] then pure (.ok ())
    else
      match ← makeDirectory p with
      | .error (.system .noEntry) =>
        match ← makeFirst above with
        | .error cause => pure (.error cause)
        | .ok () => orStanding p (← makeDirectory p)
      | made => orStanding p made

def makeDirectories (p : Path) : m (Except Cause Unit) :=
  makeFirst (p :: p.parents)

end ElfCarve
