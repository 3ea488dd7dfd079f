import ElfCarve.FileSystem.Basic

/-!
# Fresh file systems

A session begins in a file system that holds two devices and an empty working directory.
-/

namespace ElfCarve.FileSystem

def empty : FileSystem where
  entries := (∅ : Std.ExtTreeMap Location Entry).insert [] .directory
  workingDirectory := []
  root_isDirectory := by simp
  workingDirectory_isDirectory := by simp
  parent_isDirectory := by
    intro name dir present
    simp at present

/-- Makes a directory the working directory; what is no directory does not become it. -/
def enter (fs : FileSystem) (loc : Location) : FileSystem :=
  if h : fs.get? loc = some .directory then
    { fs with workingDirectory := loc, workingDirectory_isDirectory := h }
  else fs

@[simp] theorem get?_enter (fs : FileSystem) (loc other : Location) :
    (fs.enter loc).get? other = fs.get? other := by
  unfold enter
  split <;> rfl

def devices : Name :=
  ⟨Utf8.encode "dev", by decide⟩

def sink : Name :=
  ⟨Utf8.encode "null", by decide⟩

def full : Name :=
  ⟨Utf8.encode "full", by decide⟩

def temporary : Name :=
  ⟨Utf8.encode "tmp", by decide⟩

def session : Name :=
  ⟨Utf8.encode "fresh-session", by decide⟩

/-- A file system with `/dev/null`, `/dev/full` and an empty working directory.  The working
directory is the only entry of the directory above it, which is not the root, so a path that climbs
out of it by one step does not come upon anything else. -/
def fresh : FileSystem :=
  let withDevices := ((empty.add [] devices .directory).add [devices] sink (.device .sink)).add
    [devices] full (.device .full)
  ((withDevices.add [] temporary .directory).add [temporary] session .directory).enter
    [session, temporary]

end ElfCarve.FileSystem
