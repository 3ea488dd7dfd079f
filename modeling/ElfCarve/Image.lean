import ElfCarve.Bytes

/-!
# ELF images inside padded data

An ELF image begins with a four-byte magic.  Data may carry bytes before it, called padding; the
image then reaches from the first magic to the end of the data.

* `firstMagic?` searches for the first place of the magic.
* `Layout` says whether the data is a bare image or a padded one, and `layout?` finds it.
* `carve?` cuts the image out.
-/

namespace ElfCarve

/-- The four bytes that every ELF image begins with. -/
def magic : Bytes := [0x7f, 0x45, 0x4c, 0x46]

/-- Searches for the magic from the front, where `passed` bytes lie behind already. -/
def firstMagicFrom? (passed : Nat) : Bytes → Option Nat
  | [] => none
  | b :: bs =>
    if magic.isPrefixOf (b :: bs) then some passed else firstMagicFrom? (passed + 1) bs

def firstMagic? (data : Bytes) : Option Nat :=
  firstMagicFrom? 0 data

inductive Layout where
  | bare
  | padded (offset : Nat)
  deriving DecidableEq, Repr

def Layout.offset : Layout → Nat
  | .bare => 0
  | .padded offset => offset

/-- The layout of the data, if it holds an image.  Data that begins with the magic is told at once,
without a search. -/
def layout? (data : Bytes) : Option Layout :=
  if magic.isPrefixOf data then some .bare else (firstMagic? data).map .padded

def carve? (data : Bytes) : Option (Layout × Bytes) :=
  (layout? data).map fun layout => (layout, data.drop layout.offset)

def padding (layout : Layout) (data : Bytes) : Bytes :=
  data.take layout.offset

end ElfCarve
