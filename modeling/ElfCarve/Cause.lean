import ElfCarve.Errno

/-!
# Causes of failed file operations

A file operation fails with an error of the system, which has a number and a text, or is refused
before the system sees it, or fails in a way of its own that is only a text.
-/

namespace ElfCarve

inductive Cause where
  | system (errno : Errno)
  /-- The path holds a zero byte, which no path that reaches the system may. -/
  | zeroByte
  /-- Something else, of which only a text is known. -/
  | other (text : String)
  deriving DecidableEq, Repr

def Cause.message : Cause → String
  | .system errno => errno.text ++ " (os error " ++ toString errno.code ++ ")"
  | .zeroByte => "file name contained an unexpected NUL byte"
  | .other text => text

end ElfCarve
