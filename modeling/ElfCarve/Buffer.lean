import ElfCarve.Image

/-!
# Editing a buffer

A buffer of bytes changes by a sequence of edits, and one of them replaces the buffer by the image
it holds.
-/

namespace ElfCarve

inductive Edit where
  | set (data : Bytes)
  | append (data : Bytes)
  | prepend (data : Bytes)
  | drop (count : Nat)
  | take (count : Nat)
  /-- Replaces the buffer by the image in it, and leaves a buffer without one alone. -/
  | carve
  deriving DecidableEq, Repr

namespace Edit

def apply (buffer : Bytes) : Edit → Bytes
  | .set data => data
  | .append data => buffer ++ data
  | .prepend data => data ++ buffer
  | .drop count => buffer.drop count
  | .take count => buffer.take count
  | .carve => ((carve? buffer).map Prod.snd).getD buffer

/-- The layout that an edit finds, which only a carving that succeeds does. -/
def carved? (buffer : Bytes) : Edit → Option Layout
  | .carve => (carve? buffer).map Prod.fst
  | _ => none

def applyAll (buffer : Bytes) (edits : List Edit) : Bytes :=
  edits.foldl apply buffer

/-- The layouts that the carvings of a sequence of edits find, in order. -/
def carvings (buffer : Bytes) : List Edit → List Layout
  | [] => []
  | edit :: edits => (carved? buffer edit).toList ++ carvings (apply buffer edit) edits

end Edit

end ElfCarve
