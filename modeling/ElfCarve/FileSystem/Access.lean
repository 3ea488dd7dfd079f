import ElfCarve.FileSystem.Walk

/-!
# Reading and changing a file system by paths

An operation that fails gives a cause and no new file system, so that a failure changes nothing.

* `contents?` and `isDirectory` look at what a path leads to.
* `makeDirectory` and `write` are what the carver asks of a file system.
* `makeLink` and `remove` complete the set of changes.
-/

namespace ElfCarve

def Device.refusal? (content : Bytes) : Device → Option Errno
  | .sink => none
  | .full => if content = [] then none else some .noSpace

namespace FileSystem

def contents? (fs : FileSystem) (p : Path) : Option Bytes :=
  (fs.entryAt? p).bind Entry.content?

def isDirectory (fs : FileSystem) (p : Path) : Bool :=
  fs.entryAt? p = some .directory

/-- Gives a path to a new entry, where the path must end at a free name. -/
def place (fs : FileSystem) (p : Path) (entry : Entry) : Except Cause FileSystem :=
  match fs.resolve .bind p with
  | .error cause => .error cause
  | .ok (.found _) => .error (.system .alreadyExists)
  | .ok (.free dir name) => .ok (fs.add dir name entry)

def makeDirectory (fs : FileSystem) (p : Path) : Except Cause FileSystem :=
  fs.place p .directory

def makeLink (fs : FileSystem) (p target : Path) : Except Cause FileSystem :=
  if 0 ∈ target.bytes then .error .zeroByte
  else if target.bytes = [] then .error (.system .noEntry)
  else if pathLimit ≤ target.bytes.length then .error (.system .nameTooLong)
  else fs.place p (.link target)

/-- Makes content the whole content of the file that a path leads to, and creates the file if the
name is free.  A device takes the bytes or refuses them and does not change. -/
def write (fs : FileSystem) (p : Path) (content : Bytes) : Except Cause FileSystem :=
  match fs.resolve .create p with
  | .error cause => .error cause
  | .ok (.free dir name) => .ok (fs.add dir name (.file content))
  | .ok (.found loc) =>
    match fs.get? loc with
    | some (.file _) => .ok (fs.overwrite loc content)
    | some (.device device) =>
      match device.refusal? content with
      | some errno => .error (.system errno)
      | none => .ok fs
    | _ => .error (.system .isDirectory)

/-- Removes what has a path, with all below it.  A link is removed and not what it leads to. -/
def remove (fs : FileSystem) (p : Path) : Except Cause FileSystem :=
  match fs.resolve .bind p with
  | .error cause => .error cause
  | .ok (.free _ _) => .error (.system .noEntry)
  | .ok (.found loc) =>
    if loc <:+ fs.workingDirectory then .error (.system .busy) else .ok (fs.prune loc)

end FileSystem

end ElfCarve
