import ElfCarve.Log.Level
import ElfCarve.Path
import ElfCarve.Text.Terminal

/-!
# Events worth logging

Each event has a level, a target that names the part of the program it belongs to, and a message.
`Event.record` is what is printed for it.
-/

namespace ElfCarve

inductive Event where
  | read (count : Nat) (path : Path)
  | bareInput (path : Path)
  | paddedInput (count : Nat) (path : Path)
  /-- The padding of the input holds other bytes than zero. -/
  | filledPadding (path : Path) (offset : Nat)
  | wrote (count : Nat) (path : Path)
  deriving DecidableEq, Repr

namespace Event

def level : Event → Level
  | .read _ _ | .filledPadding _ _ => .debug
  | .bareInput _ | .paddedInput _ _ | .wrote _ _ => .info

/-- The part of the program that tells of an event.  That the image was written is told by the
command, everything else by the work itself. -/
def target : Event → String
  | .wrote _ _ => "unpack_padded_elf"
  | _ => "unpad_core::unpack"

def message : Event → String
  | .read count path => "Read " ++ toString count ++ " bytes from " ++ path.display
  | .bareInput path => path.display ++ " is already a bare ELF image, copying"
  | .paddedInput count path =>
    "Stripping " ++ toString count ++ " bytes of padding from " ++ path.display
  | .filledPadding path offset =>
    "Padding in " ++ path.display ++ " is not zero-filled; using first ELF magic at 0x"
      ++ String.ofList (Nat.toDigits 16 offset)
  | .wrote count path => "Wrote " ++ toString count ++ " bytes to " ++ path.display

def indentLines (text : String) : String :=
  String.ofList (text.toList.flatMap fun c =>
    if c = '\n' then ['\n', ' ', ' ', ' ', ' '] else [c])

/-- The record of an event, as printed: a line, and further ones for the line ends of its message,
without what a terminal would not show.  An order to the terminal that the message leaves unfinished
can reach into the rest of the record and hide even the end of its line. -/
def record (event : Event) : String :=
  Terminal.visible
    ("[" ++ event.level.label ++ " " ++ event.target ++ "] " ++ indentLines event.message ++ "\n")

end Event

end ElfCarve
