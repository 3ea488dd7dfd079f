import ElfCarve.FileSystem.Basic

/-!
# Listing a tree

A listing holds every entry below a directory with its path from there, in the order of the bytes
of these paths.  Links are listed and not followed.
-/

namespace ElfCarve.FileSystem

/-- The path of a location from a directory above it. -/
def pathFrom (dir loc : Location) : Path :=
  .ofSegments ((loc.take (loc.length - dir.length)).reverse.map Name.bytes)

def entriesBelow (fs : FileSystem) (dir : Location) : List (Path × Entry) :=
  fs.entries.toList.filterMap fun (loc, entry) =>
    if dir <:+ loc ∧ dir ≠ loc then some (pathFrom dir loc, entry) else none

/-- The entries below the working directory, in the order of their paths. -/
def listing (fs : FileSystem) : List (Path × Entry) :=
  (fs.entriesBelow fs.workingDirectory).mergeSort fun a b =>
    (compare a.1.bytes b.1.bytes).isLE

end ElfCarve.FileSystem
