import ElfCarve.Bytes

/-!
# UTF-8

Bytes are read as text one at a time.  Between two bytes the reader is either at rest or inside a
sequence, and a `Pending` sequence says which byte may come next.  A byte that cannot continue the
sequence ends it as one ill-formed piece and is then read afresh, so every ill-formed piece is as
long as possible and no longer.

* `pieces` lists the characters and the ill-formed pieces.
* `decode?` accepts text only, and `decodeLossy` shows each ill-formed piece as U+FFFD.
* `encode` writes text as bytes.
-/

namespace ElfCarve.Utf8

/-- A sequence whose first bytes have been read. -/
structure Pending where
  code : Nat
  /-- How many bytes must follow the next one. -/
  more : Nat
  low : UInt8
  high : UInt8
  deriving DecidableEq, Repr

/-- The sequence that a byte above the ASCII range begins.  The bounds on the second byte leave out
overlong forms, surrogates, and codes above U+10FFFF. -/
def Pending.ofLead? (b : UInt8) : Option Pending :=
  if b < 0xc2 then none
  else if b < 0xe0 then some ⟨b.toNat - 0xc0, 0, 0x80, 0xbf⟩
  else if b < 0xf0 then
    some ⟨b.toNat - 0xe0, 1, if b = 0xe0 then 0xa0 else 0x80, if b = 0xed then 0x9f else 0xbf⟩
  else if b < 0xf5 then
    some ⟨b.toNat - 0xf0, 2, if b = 0xf0 then 0x90 else 0x80, if b = 0xf4 then 0x8f else 0xbf⟩
  else none

def Pending.admits (p : Pending) (b : UInt8) : Bool :=
  decide (p.low ≤ b) && decide (b ≤ p.high)

def Pending.extend (p : Pending) (b : UInt8) : Nat :=
  p.code * 64 + (b.toNat - 0x80)

/-- Reads a byte at rest: what is complete with it, and the sequence it begins. -/
def atRest (b : UInt8) : List (Option Char) × Option Pending :=
  if b < 0x80 then ([some (Char.ofNat b.toNat)], none)
  else match Pending.ofLead? b with
    | some p => ([], some p)
    | none => ([none], none)

def step : Option Pending → UInt8 → List (Option Char) × Option Pending
  | none, b => atRest b
  | some p, b =>
    if p.admits b then
      match p.more with
      | 0 => ([some (Char.ofNat (p.extend b))], none)
      | more + 1 => ([], some ⟨p.extend b, more, 0x80, 0xbf⟩)
    else (none :: (atRest b).1, (atRest b).2)

/-- The pieces from a state on; a sequence that the bytes leave unfinished is one ill-formed
piece. -/
def piecesFrom : Option Pending → Bytes → List (Option Char)
  | none, [] => []
  | some _, [] => [none]
  | state, b :: bs => (step state b).1 ++ piecesFrom (step state b).2 bs

/-- The characters of the bytes, with `none` for each ill-formed piece. -/
def pieces (bs : Bytes) : List (Option Char) :=
  piecesFrom none bs

def showPieces (ps : List (Option Char)) : String :=
  String.ofList (ps.map (·.getD '\uFFFD'))

def decode? (bs : Bytes) : Option String :=
  if (pieces bs).all Option.isSome then some (String.ofList ((pieces bs).filterMap id)) else none

def decodeLossy (bs : Bytes) : String :=
  showPieces (pieces bs)

def encode (text : String) : Bytes :=
  text.toList.flatMap String.utf8EncodeChar

end ElfCarve.Utf8
