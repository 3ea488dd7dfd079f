import ElfCarve.Cause
import ElfCarve.Path

/-!
# Failures

Why an image could not be carved out of a file, in words and as an exit status.
-/

namespace ElfCarve

inductive Failure where
  /-- The input is no regular file. -/
  | noInput (path : Path)
  | noImage (path : Path)
  | noAccess (path : Path) (cause : Cause)
  deriving DecidableEq, Repr

namespace Failure

/-- The exit status for an input or a command line that is refused. -/
def refused : Nat := 2

/-- The exit status for trouble with files. -/
def troubled : Nat := 1

def exitStatus : Failure → Nat
  | .noInput _ | .noImage _ => refused
  | .noAccess _ _ => troubled

/-- What failed, without the cause behind it. -/
def message : Failure → String
  | .noInput path => "input not found: " ++ path.display
  | .noImage path => "no ELF header found in " ++ path.display
  | .noAccess path _ => "cannot access " ++ path.display

def cause? : Failure → Option Cause
  | .noInput _ | .noImage _ => none
  | .noAccess _ cause => some cause

/-- What failed, followed by the cause if there is one. -/
def chain (failure : Failure) : String :=
  match failure.cause? with
  | none => failure.message
  | some cause => failure.message ++ ": " ++ cause.message

end Failure

end ElfCarve
