import ElfCarve.Files
import ElfCarve.FileSystem.Access

/-!
# A file system as a state

A computation that holds a `FileSystem` as its state offers the file operations of `MonadFiles`.
Looking changes no state, and neither does an operation that fails.
-/

namespace ElfCarve.FileSystem

def attempt (change : FileSystem → Except Cause FileSystem) :
    StateM FileSystem (Except Cause Unit) := fun fs =>
  match change fs with
  | .ok changed => (.ok (), changed)
  | .error cause => (.error cause, fs)

instance : MonadFiles (StateM FileSystem) where
  contents? p := fun fs => (.ok (fs.contents? p), fs)
  isDirectory p := fun fs => (fs.isDirectory p, fs)
  makeDirectory p := attempt (·.makeDirectory p)
  write p content := attempt (·.write p content)

theorem run_contents? (fs : FileSystem) (p : Path) :
    (MonadFiles.contents? p : StateM FileSystem _) fs = (.ok (fs.contents? p), fs) :=
  rfl

theorem run_isDirectory (fs : FileSystem) (p : Path) :
    (MonadFiles.isDirectory p : StateM FileSystem _) fs = (fs.isDirectory p, fs) :=
  rfl

theorem run_makeDirectory (fs : FileSystem) (p : Path) :
    (MonadFiles.makeDirectory p : StateM FileSystem _) fs = attempt (·.makeDirectory p) fs :=
  rfl

theorem run_write (fs : FileSystem) (p : Path) (content : Bytes) :
    (MonadFiles.write p content : StateM FileSystem _) fs = attempt (·.write p content) fs :=
  rfl

end ElfCarve.FileSystem
