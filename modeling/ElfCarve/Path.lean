import ElfCarve.Text.Utf8

/-!
# Paths

A path is a string of bytes in which `/` separates segments.  What a path means is decided by the
file system that walks it; here it is taken apart by its text alone.

* `Path.segments` splits a path, and `Path.ofSegments` joins it again.
* `Path.parents` lists the paths above a path, the nearest first, and `Path.parent?` is the
  nearest of them.
* `Path.display` shows a path, and `Path.text?` is its text if its bytes are text.
-/

namespace ElfCarve

structure Path where
  /-- The bytes of the path, any bytes at all. -/
  bytes : Bytes
  deriving DecidableEq, Repr

namespace Path

def ofText (text : String) : Path :=
  ⟨Utf8.encode text⟩

/-- The parts between slashes.  There is always at least one, and a slash in front makes the first
one empty. -/
def segments (p : Path) : List Bytes :=
  p.bytes.splitOn Bytes.slash

def ofSegments (segments : List Bytes) : Path :=
  ⟨[Bytes.slash].intercalate segments⟩

def isAbsolute (p : Path) : Bool :=
  p.bytes.head? = some Bytes.slash

/-- Whether a segment other than the first adds nothing to a path: it is empty or a single dot. -/
def isIdle (segment : Bytes) : Bool :=
  segment = [] || segment = [Bytes.dot]

/-- The path of a first segment and further ones, the last of them in front.  The root is the path
whose only segment is empty. -/
def ofReversed (first : Bytes) (rest : List Bytes) : Path :=
  match first, rest with
  | [], [] => ⟨[Bytes.slash]⟩
  | first, rest => ofSegments (first :: rest.reverse)

/-- The paths above one that has a first segment and further ones, the last of them in front.  Each
step leaves out one segment that is not idle, and with it the idle ones before it.  Below the root
the climb ends at the root; elsewhere it ends at the empty path. -/
def climb (first : Bytes) : List Bytes → List Path
  | [] => if first = [] then [] else [⟨[]⟩]
  | segment :: rest =>
    if isIdle segment then climb first rest
    else ofReversed first (rest.dropWhile isIdle) :: climb first rest

/-- The paths above a path, the nearest first. -/
def parents (p : Path) : List Path :=
  match p.segments with
  | [] => []
  | first :: rest => climb first rest.reverse

/-- The path without its last segment.  The root and the empty path have no parent. -/
def parent? (p : Path) : Option Path :=
  p.parents.head?

/-- The path as shown in messages, with U+FFFD for bytes that are not text. -/
def display (p : Path) : String :=
  Utf8.decodeLossy p.bytes

def text? (p : Path) : Option String :=
  Utf8.decode? p.bytes

end Path

end ElfCarve
