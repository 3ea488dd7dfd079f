import ElfCarve.Cause
import ElfCarve.FileSystem.Basic

/-!
# Walking a path

A walk goes from a directory through the components of a path, one at a time, and follows the
symbolic links that it meets: the components of the target take the place of the link.  A walk
follows at most 40 links in all.

What happens at the last name depends on the `Intent` of the walk, and the walk ends in a
`Landing`, which is either an entry that exists or a free name in a directory that exists.

* `Component` is what a segment of a path asks of a walk.
* `FileSystem.walk` walks components, and `FileSystem.resolve` walks a path from where it begins.
-/

namespace ElfCarve

inductive Component where
  /-- Nothing stands between two slashes, or in front of the first or behind the last. -/
  | blank
  | stay
  /-- Two dots: go to the directory above, which at the root is the root. -/
  | up
  | child (name : Name)
  /-- No entry can have this name, because it is too long. -/
  | overlong
  deriving DecidableEq

def Component.ofSegment (segment : Bytes) : Component :=
  if segment = [] then .blank
  else if segment = [Bytes.dot] then .stay
  else if segment = [Bytes.dot, Bytes.dot] then .up
  else if h : Name.Valid segment then .child ⟨segment, h⟩
  else .overlong

def Path.components (p : Path) : List Component :=
  p.segments.map Component.ofSegment

inductive Intent where
  /-- To find what the path leads to, through a link at the end as well. -/
  | look
  /-- To open a file for writing, and to create it if the name is free.  A link at the end is
  followed, and a slash behind the last name asks for a directory, which is no file. -/
  | create
  /-- To give the last name to a new entry.  A link at the end is an entry that has the name
  already, and a slash behind the last name asks for nothing. -/
  | bind
  deriving DecidableEq

inductive Landing where
  /-- At an entry that exists. -/
  | found (loc : Location)
  /-- At a name that is free in a directory. -/
  | free (dir : Location) (name : Name)
  deriving DecidableEq

namespace FileSystem

/-- Where a walk to a path begins, when it is met in a directory. -/
def base (here : Location) (p : Path) : Location :=
  if p.isAbsolute then [] else here

/-- Walks from a location, where `follow` walks on behind a link. -/
def walkWith (fs : FileSystem) (intent : Intent)
    (follow : Location → List Component → Except Errno Landing) :
    Location → List Component → Except Errno Landing
  | here, [] => .ok (.found here)
  | here, component :: rest =>
    if fs.get? here ≠ some .directory then .error .notDirectory
    else
      let isLast := rest.all (· = .blank)
      match component with
      | .blank | .stay => walkWith fs intent follow here rest
      | .up => walkWith fs intent follow here.tail rest
      | .overlong =>
        if intent = .create ∧ isLast ∧ rest ≠ [] then .error .isDirectory
        else .error .nameTooLong
      | .child name =>
        if intent = .create ∧ isLast ∧ rest ≠ [] then .error .isDirectory
        else match fs.get? (name :: here) with
          | none => if isLast then .ok (.free here name) else .error .noEntry
          | some (.link target) =>
            if intent = .bind ∧ isLast then .ok (.found (name :: here))
            else if target.bytes = [] then .error .noEntry
            else follow (base here target) (target.components ++ rest)
          | some _ =>
            if intent = .bind ∧ isLast then .ok (.found (name :: here))
            else walkWith fs intent follow (name :: here) rest

def walk (fs : FileSystem) (intent : Intent) : Nat → Location → List Component →
    Except Errno Landing
  | 0 => fs.walkWith intent fun _ _ => .error .tooManyLinks
  | links + 1 => fs.walkWith intent (fs.walk intent links)

def linkLimit : Nat := 40

def pathLimit : Nat := 4096

/-- Walks a path from the root or from the working directory. -/
def resolve (fs : FileSystem) (intent : Intent) (p : Path) : Except Cause Landing :=
  if 0 ∈ p.bytes then .error .zeroByte
  else if p.bytes = [] then .error (.system .noEntry)
  else if pathLimit ≤ p.bytes.length then .error (.system .nameTooLong)
  else (fs.walk intent linkLimit (base fs.workingDirectory p) p.components).mapError .system

def target? (fs : FileSystem) (p : Path) : Option Location :=
  match fs.resolve .look p with
  | .ok (.found loc) => some loc
  | _ => none

def entryAt? (fs : FileSystem) (p : Path) : Option Entry :=
  (fs.target? p).bind fs.get?

end FileSystem

end ElfCarve
