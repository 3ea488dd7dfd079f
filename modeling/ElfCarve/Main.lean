import ElfCarve.Command.Outcome

/-!
# The command

The file operations of the world outside, and the command that runs on them.  Everything else about
the command is decided elsewhere.
-/

namespace ElfCarve

def errorNumber? : IO.Error → Option UInt32
  | .alreadyExists _ code _ | .otherError code _ | .resourceBusy code _
  | .resourceVanished code _ | .unsupportedOperation code _ | .hardwareFault code _
  | .unsatisfiedConstraints code _ | .illegalOperation code _ | .protocolError code _
  | .timeExpired code _ | .interrupted _ code _ | .noFileOrDirectory _ code _
  | .invalidArgument _ code _ | .permissionDenied _ code _ | .resourceExhausted _ code _
  | .inappropriateType _ code _ | .noSuchThing _ code _ => some code
  | .unexpectedEof | .userError _ => none

def Cause.ofError (error : IO.Error) : Cause :=
  match errorNumber? error with
  | some code => .system ⟨code.toNat⟩
  | none => .other (toString error)

def caught {α : Type} (action : IO α) : IO (Except Cause α) := do
  return (← action.toBaseIO).mapError Cause.ofError

/-- The kind of what a path leads to, through links. -/
def kindOf (p : Path) : IO IO.FS.FileType := do
  return (← (← IO.FS.realPath p.display).metadata).type

instance : MonadFiles IO where
  contents? p := do
    match ← caught (kindOf p) with
    | .ok .file => caught do return some (← IO.FS.readBinFile p.display).toList
    | _ => return .ok none
  isDirectory p := do
    match ← caught (kindOf p) with
    | .ok .dir => return true
    | _ => return false
  makeDirectory p := caught (IO.FS.createDir p.display)
  write p content := caught do
    IO.FS.withFile p.display .write fun file => do
      file.write ⟨content.toArray⟩
      file.flush

end ElfCarve

open ElfCarve in
def main (arguments : List String) : IO UInt32 := do
  let outcome ← Command.run (arguments.map Utf8.encode) (← IO.getEnv "RUST_LOG")
  for message in outcome.messages do
    IO.eprint message
  IO.print outcome.output
  return outcome.status.toUInt32
