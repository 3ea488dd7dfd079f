/-!
# Bytes

File contents, paths and arguments are lists of bytes.  Nothing else is assumed of them: a path or
an argument need not be text.
-/

namespace ElfCarve

abbrev Bytes := List UInt8

namespace Bytes

def slash : UInt8 := 0x2f

def dot : UInt8 := 0x2e

/-- The byte of `-`, which begins an option. -/
def dash : UInt8 := 0x2d

/-- The byte of `=`, which joins a value to an option. -/
def equals : UInt8 := 0x3d

end Bytes

end ElfCarve
