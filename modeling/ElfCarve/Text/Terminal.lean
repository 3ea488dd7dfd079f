/-!
# What a terminal would show

Some characters of a text are orders to a terminal, alone or with the characters that follow them.
A reader goes through the text character by character and always stands in a `State`: outside all
orders, inside of one, or at a place where one has been put off.

* `State.shows` tells whether a character is shown, and `State.next` where the reader stands behind
  it.
* `visible` is the text that is shown, without any orders.
* `visibleFrom_of_plain` says that a text without control characters is shown as it is.
-/

namespace ElfCarve.Terminal

/-- The unfinished orders that a character which lays out the text can put off. -/
inductive ShortOrder where
  | escape
  /-- Behind an escape character and characters that qualify it. -/
  | qualified
  /-- In a control sequence, which ends with its first character from `@` on. -/
  | sequence
  deriving DecidableEq, Repr

inductive State where
  | ground
  | short (order : ShortOrder)
  /-- Among characters that are shown while a short order waits to be taken up again. -/
  | putOff (order : ShortOrder)
  | device
  | deviceParameters
  /-- Behind the parameters of a device control string, among characters that qualify it. -/
  | deviceQualified
  /-- In the text of a string that goes to the device or to nobody. -/
  | string
  /-- In the text of a command to the operating system. -/
  | command
  deriving DecidableEq, Repr

def inRange (first last : Nat) (c : Char) : Bool :=
  decide (first ≤ c.toNat) && decide (c.toNat ≤ last)

/-- Whether a character qualifies the order around it. -/
def isQualifier (c : Char) : Bool :=
  inRange 0x20 0x2f c

/-- Whether a control character is shown: the ones that lay out a text. -/
def isLayout (c : Char) : Bool :=
  c = '\t' || c = '\n' || c = '\x0c' || c = '\r'

/-- Whether the bytes of a character hold the byte that ends a string.  They are looked at one by
one, so a longer character can end a string as well. -/
def endsString (c : Char) : Bool :=
  (String.utf8EncodeChar c).contains 0x9c

/-- Where a short order goes on behind a character that belongs to it.  What has no meaning at its
place changes nothing. -/
def ShortOrder.next : ShortOrder → Char → State
  | .escape, c =>
    if c = '[' then .short .sequence
    else if c = ']' then .command
    else if c = 'P' then .device
    else if c = 'X' ∨ c = '^' ∨ c = '_' then .string
    else if isQualifier c then .short .qualified
    else if inRange 0x30 0x7e c then .ground
    else .short .escape
  | .qualified, c => if inRange 0x30 0x7e c then .ground else .short .qualified
  | .sequence, c => if inRange 0x40 0x7e c then .ground else .short .sequence

namespace State

/-- Whether a character is shown.  Where no order is going on, every character is that is no control
character; those that lay out a text are shown in the midst of a short order as well. -/
def shows : State → Char → Bool
  | .ground, c | .putOff _, c => isLayout c || decide (0x20 ≤ c.toNat) && decide (c.toNat ≠ 0x7f)
  | .short _, c => isLayout c
  | _, _ => false

/-- Where the reader stands behind a character that is shown.  It puts off a short order around it.
An order that has been put off is forgotten at the first character outside the ASCII range. -/
def afterShown : State → Char → State
  | .short order, _ => .putOff order
  | .putOff order, c => if c.toNat < 0x80 then .putOff order else .ground
  | _, _ => .ground

/-- Where the reader stands behind a character that is not shown and is part of the order around it.
An order that has been put off is taken up again. -/
def afterHidden : State → Char → State
  | .ground, _ => .ground
  | .short order, c => order.next c
  | .putOff order, _ => .short order
  | .device, c =>
    if isQualifier c then .deviceQualified
    else if inRange 0x30 0x3f c then .deviceParameters
    else if inRange 0x40 0x7e c then .string
    else .device
  | .deviceParameters, c =>
    if isQualifier c then .deviceQualified
    else if inRange 0x3c 0x7e c then .string
    else .deviceParameters
  | .deviceQualified, c => if inRange 0x30 0x7e c then .string else .deviceQualified
  | .string, c => if endsString c then .ground else .string
  | .command, c => if c = '\x07' then .ground else .command

/-- Where the reader stands behind a character.  An escape character begins a new order everywhere,
and the characters for cancelling and substituting end every order. -/
def next (state : State) (c : Char) : State :=
  if state.shows c then state.afterShown c
  else if c = '\x1b' then .short .escape
  else if c = '\x18' ∨ c = '\x1a' then .ground
  else state.afterHidden c

end State

def visibleFrom : State → List Char → List Char
  | _, [] => []
  | state, c :: rest =>
    if state.shows c then c :: visibleFrom (state.next c) rest
    else visibleFrom (state.next c) rest

def visible (text : String) : String :=
  String.ofList (visibleFrom .ground text.toList)

theorem visibleFrom_of_plain {text : List Char} (plain : ∀ c ∈ text, State.ground.shows c) :
    visibleFrom .ground text = text := by
  induction text with
  | nil => rfl
  | cons c rest ih =>
    have shown : State.ground.shows c := plain c List.mem_cons_self
    simp only [visibleFrom, State.next, State.afterShown, shown, if_true]
    rw [ih fun d member => plain d (List.mem_cons_of_mem c member)]

theorem visibleFrom_sublist (state : State) (text : List Char) :
    (visibleFrom state text).Sublist text := by
  induction text generalizing state with
  | nil => exact List.Sublist.refl []
  | cons c rest ih =>
    unfold visibleFrom
    split
    · exact (ih _).cons_cons c
    · exact (ih _).cons c

end ElfCarve.Terminal
