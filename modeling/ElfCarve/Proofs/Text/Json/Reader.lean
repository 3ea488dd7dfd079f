import ElfCarve.Proofs.Text.Json.Grammar

/-!
# Reading JSON texts

A reader goes through a text character by character.  It always stands in a `State`: before a value
or behind one, at one of the places inside an object, or within a number or a string.  The objects
that are still open around it are kept as a stack of frames.

* `State.step` takes one character in, and `State.read?` a whole text from a state on.
* `read?` is the value that a text stands for, if the reader comes to its end.
* `read?_of_isTextOf` says that the reader finds the value of every text of the grammar.  So a text
  stands for one value at most.
-/

namespace ElfCarve.Json

/-! ## The reader -/

/-- An open object: the fields in front, and the key of the field whose value is being read. -/
structure Frame where
  fields : List (String × Json)
  key : String

inductive Role where
  | value
  | key (fields : List (String × Json))

inductive Within where
  | plain
  | escape
  /-- Before a digit of a code, with more to come behind it; the first half of the code may have
  been read before. -/
  | code (high? : Option Nat) (more : Nat) (value : Nat)
  | half (high : Nat)
  | halfEscape (high : Nat)

/-- Where the reader stands, with the open objects around it, the innermost first. -/
inductive State where
  | before (outer : List Frame)
  | behind (value : Json) (outer : List Frame)
  /-- Behind an opening brace. -/
  | opened (outer : List Frame)
  /-- Behind a comma. -/
  | next (fields : List (String × Json)) (outer : List Frame)
  /-- Behind a key. -/
  | named (fields : List (String × Json)) (key : String) (outer : List Frame)
  | number (value : Nat) (outer : List Frame)
  | string (role : Role) (within : Within) (inside : List Char) (outer : List Frame)

namespace State

def closed (inside : List Char) (outer : List Frame) : Role → State
  | .value => .behind (.text (String.ofList inside)) outer
  | .key fields => .named fields (String.ofList inside) outer

def coded? (role : Role) (inside : List Char) (outer : List Frame) (high? : Option Nat)
    (code : Nat) : Option State :=
  match high? with
  | none =>
    if isHighHalf code then some (.string role (.half code) inside outer)
    else if isLowHalf code then none
    else some (.string role .plain (inside ++ [Char.ofNat code]) outer)
  | some high =>
    if isLowHalf code then
      some (.string role .plain (inside ++ [Char.ofNat (joinHalves high code)]) outer)
    else none

def stepString (role : Role) (inside : List Char) (outer : List Frame) :
    Within → Char → Option State
  | .plain, c =>
    if c = '"' then some (closed inside outer role)
    else if c = '\\' then some (.string role .escape inside outer)
    else if c.toNat < 0x20 then none
    else some (.string role .plain (inside ++ [c]) outer)
  | .escape, c =>
    if c = 'u' then some (.string role (.code none 3 0) inside outer)
    else (unescape? c).map fun stands => .string role .plain (inside ++ [stands]) outer
  | .code high? more value, c =>
    (hexDigit? c).bind fun digit =>
      match more with
      | 0 => coded? role inside outer high? (value * 16 + digit)
      | more + 1 => some (.string role (.code high? more (value * 16 + digit)) inside outer)
  | .half high, c => if c = '\\' then some (.string role (.halfEscape high) inside outer) else none
  | .halfEscape high, c =>
    if c = 'u' then some (.string role (.code (some high) 3 0) inside outer) else none

/-- Takes in a character behind a value, which may end the object around it or its field. -/
def stepBehind (value : Json) (outer : List Frame) (c : Char) : Option State :=
  if isSpace c then some (.behind value outer)
  else match outer with
    | [] => none
    | frame :: outer =>
      let fields := frame.fields ++ [(frame.key, value)]
      if c = ',' then some (.next fields outer)
      else if c = '\x7d' then some (.behind (.object fields) outer)
      else none

def step : State → Char → Option State
  | .before outer, c =>
    if isSpace c then some (.before outer)
    else if c = '"' then some (.string .value .plain [] outer)
    else if c = '\x7b' then some (.opened outer)
    else if c.isDigit then some (.number (c.toNat - '0'.toNat) outer)
    else none
  | .behind value outer, c => stepBehind value outer c
  | .opened outer, c =>
    if isSpace c then some (.opened outer)
    else if c = '"' then some (.string (.key []) .plain [] outer)
    else if c = '\x7d' then some (.behind (.object []) outer)
    else none
  | .next fields outer, c =>
    if isSpace c then some (.next fields outer)
    else if c = '"' then some (.string (.key fields) .plain [] outer)
    else none
  | .named fields key outer, c =>
    if isSpace c then some (.named fields key outer)
    else if c = ':' then some (.before (⟨fields, key⟩ :: outer))
    else none
  | .number value outer, c =>
    if c.isDigit then
      if value = 0 then none else some (.number (10 * value + (c.toNat - '0'.toNat)) outer)
    else stepBehind (.number value) outer c
  | .string role within inside outer, c => stepString role inside outer within c

def value? : State → Option Json
  | .behind value [] => some value
  | .number value [] => some (.number value)
  | _ => none

def read? : State → List Char → Option Json
  | state, [] => state.value?
  | state, c :: rest => (state.step c).bind (·.read? rest)

end State

def read? (text : String) : Option Json :=
  State.read? (.before []) text.toList

/-! ## Strings and numbers -/

namespace State

variable {state next : State} {role : Role} {inside rest : List Char} {outer : List Frame}

theorem read?_cons {c : Char} (steps : state.step c = some next) :
    state.read? (c :: rest) = next.read? rest := by
  rw [read?, steps, Option.bind_some]

/-- Blanks are passed over wherever the reader stays at its place behind one. -/
theorem read?_append_of_allSpace {blanks : List Char} (allSpace : AllSpace blanks)
    (stays : ∀ c, isSpace c → state.step c = some state) :
    state.read? (blanks ++ rest) = state.read? rest := by
  induction blanks with
  | nil => rfl
  | cons c blanks ih =>
    rw [AllSpace, List.forall_mem_cons] at allSpace
    rw [List.cons_append, read?_cons (stays c allSpace.1), ih allSpace.2]

theorem read?_code {digits : List Char} {code : Nat} (spells : SpellsCode digits code)
    (high? : Option Nat) :
    read? (.string role (.code high? 3 0) inside outer) (digits ++ rest) =
      (coded? role inside outer high? code).bind (·.read? rest) := by
  obtain ⟨first, second, third, fourth⟩ := spells
  simp [read?, step, stepString, first, second, third, fourth]

theorem read?_escape_u :
    read? (.string role .plain inside outer) ('\\' :: 'u' :: rest) =
      read? (.string role (.code none 3 0) inside outer) rest :=
  rfl

theorem isHighHalf_toNat (c : Char) : isHighHalf c.toNat = false := by
  have valid : c.toNat < 0xd800 ∨ 0xdfff < c.toNat ∧ c.toNat < 0x110000 := c.valid
  rw [isHighHalf, Bool.and_eq_false_iff, decide_eq_false_iff_not, decide_eq_false_iff_not]
  omega

theorem isLowHalf_toNat (c : Char) : isLowHalf c.toNat = false := by
  have valid : c.toNat < 0xd800 ∨ 0xdfff < c.toNat ∧ c.toNat < 0x110000 := c.valid
  rw [isLowHalf, Bool.and_eq_false_iff, decide_eq_false_iff_not, decide_eq_false_iff_not]
  omega

theorem read?_char {s : List Char} {c : Char} (spells : SpellsChar s c) :
    read? (.string role .plain inside outer) (s ++ rest) =
      read? (.string role .plain (inside ++ [c]) outer) rest := by
  cases spells with
  | plain noControl noQuote noBackslash =>
    apply read?_cons
    rw [step, stepString, if_neg noQuote, if_neg noBackslash, if_neg (Nat.not_lt.mpr noControl)]
  | @escaped letter c stands =>
    have noCode : letter ≠ 'u' := by
      rintro rfl
      cases stands
    simp [read?, step, stepString, noCode, stands]
  | code spells =>
    rw [List.cons_append, List.cons_append, read?_escape_u, read?_code spells, coded?,
      isHighHalf_toNat, isLowHalf_toNat, Char.ofNat_toNat]
    rfl
  | @halves first second high low c spells spellsToo isHigh isLow joined =>
    have goesOn : read? (.string role (.half high) inside outer)
        ('\\' :: 'u' :: (second ++ rest)) =
        read? (.string role (.code (some high) 3 0) inside outer) (second ++ rest) :=
      rfl
    rw [List.append_assoc, List.cons_append, List.cons_append, read?_escape_u, read?_code spells,
      coded?, if_pos isHigh, Option.bind_some, List.cons_append, List.cons_append, goesOn,
      read?_code spellsToo, coded?, if_pos isLow, Option.bind_some, ← joined, Char.ofNat_toNat]

theorem read?_chars {s cs : List Char} (spells : SpellsChars s cs) :
    read? (.string role .plain inside outer) (s ++ rest) =
      read? (.string role .plain (inside ++ cs) outer) rest := by
  induction spells generalizing inside with
  | nil => rw [List.nil_append, List.append_nil]
  | cons first _ ih =>
    rw [List.append_assoc, read?_char first, ih, List.append_assoc, List.singleton_append]

theorem read?_string {s : List Char} {name : String} (spells : SpellsString s name)
    (begins : state.step '"' = some (.string role .plain [] outer)) :
    state.read? (s ++ rest) = (closed name.toList outer role).read? rest := by
  obtain ⟨spells⟩ := spells
  rw [List.cons_append, List.cons_append, read?_cons begins, List.append_assoc, read?_chars spells,
    List.nil_append, List.singleton_append]
  rfl

def NoDigit (rest : List Char) : Prop :=
  ∀ c ∈ rest.head?, c.isDigit = false

theorem read?_digits {digits : List Char} {value : Nat} (isDigit : ∀ c ∈ digits, c.isDigit)
    (noZero : digits ≠ [] → value ≠ 0) :
    read? (.number value outer) (digits ++ rest) =
      read? (.number (Nat.ofDigitChars 10 digits value) outer) rest := by
  induction digits generalizing value with
  | nil => rfl
  | cons c digits ih =>
    rw [List.forall_mem_cons] at isDigit
    have goesOn : step (.number value outer) c =
        some (.number (10 * value + (c.toNat - '0'.toNat)) outer) := by
      rw [step, if_pos isDigit.1, if_neg (noZero nofun)]
    rw [List.cons_append, read?_cons goesOn, ih isDigit.2 fun _ => ?_, Nat.ofDigitChars_cons]
    have positive := noZero nofun
    omega

theorem read?_number_end (noDigit : NoDigit rest) (value : Nat) :
    read? (.number value outer) rest = read? (.behind (.number value) outer) rest := by
  cases rest with
  | nil => cases outer <;> rfl
  | cons c rest =>
    have ends : c.isDigit = false := noDigit c rfl
    rw [read?, read?, step, step, ends]
    rfl

theorem ne_of_isDigit {c d : Char} (isDigit : c.isDigit) (noDigit : d.isDigit = false) : c ≠ d := by
  rintro rfl
  rw [isDigit] at noDigit
  cases noDigit

theorem isDigit_of_isSpace {c : Char} (space : isSpace c) : c.isDigit = false := by
  by_contra isDigit
  rw [Bool.not_eq_false] at isDigit
  have ne (d : Char) (noDigit : d.isDigit = false) : c ≠ d := ne_of_isDigit isDigit noDigit
  simp [isSpace, ne ' ' rfl, ne '\t' rfl, ne '\n' rfl, ne '\r' rfl] at space

theorem eq_zero_of_isDigit {c : Char} (isDigit : c.isDigit) (none : c.toNat - '0'.toNat = 0) :
    c = '0' := by
  have least : '0'.toNat ≤ c.toNat := by
    rw [Char.isDigit, Bool.and_eq_true, decide_eq_true_iff] at isDigit
    exact isDigit.1
  rw [← Char.toNat_inj]
  omega

theorem read?_number {digits : List Char} {value : Nat} (spells : SpellsNumber digits value)
    (noDigit : NoDigit rest) :
    read? (.before outer) (digits ++ rest) = read? (.behind (.number value) outer) rest := by
  obtain ⟨ne_nil, isDigit, noZero, rfl⟩ := spells
  obtain ⟨c, digits, rfl⟩ := List.exists_cons_of_ne_nil ne_nil
  rw [List.forall_mem_cons] at isDigit
  have begins : step (.before outer) c = some (.number (c.toNat - '0'.toNat) outer) := by
    have noSpace : isSpace c = false := by
      by_contra space
      rw [Bool.not_eq_false] at space
      exact ne_of_isDigit isDigit.1 (isDigit_of_isSpace space) rfl
    rw [step, noSpace, if_neg Bool.false_ne_true, if_neg (ne_of_isDigit isDigit.1 rfl),
      if_neg (ne_of_isDigit isDigit.1 rfl), if_pos isDigit.1]
  have positive (more : digits ≠ []) : c.toNat - '0'.toNat ≠ 0 := by
    intro none
    have single := noZero (congrArg some (eq_zero_of_isDigit isDigit.1 none))
    exact more (List.cons.inj single).2
  rw [List.cons_append, read?_cons begins, read?_digits isDigit.2 positive,
    read?_number_end noDigit, Nat.ofDigitChars_cons, Nat.mul_zero, Nat.zero_add]

/-! ## Values -/

theorem noDigit_append {blanks : List Char} (allSpace : AllSpace blanks) (noDigit : NoDigit rest) :
    NoDigit (blanks ++ rest) := by
  cases blanks with
  | nil => exact noDigit
  | cons c blanks =>
    intro first isFirst
    cases isFirst
    exact isDigit_of_isSpace (allSpace c List.mem_cons_self)

theorem noDigit_cons {c : Char} (noDigit : c.isDigit = false) (rest : List Char) :
    NoDigit (c :: rest) := by
  intro first isFirst
  cases isFirst
  exact noDigit

/-- The reader waits for the key of a field behind these ones. -/
structure AwaitsKey (state : State) (fields : List (String × Json)) (outer : List Frame) :
    Prop where
  stays : ∀ c, isSpace c → state.step c = some state
  begins : state.step '"' = some (.string (.key fields) .plain [] outer)

theorem awaitsKey_opened (outer : List Frame) : (opened outer).AwaitsKey [] outer where
  stays c space := by rw [step, if_pos space]
  begins := rfl

theorem awaitsKey_next (fields : List (String × Json)) (outer : List Frame) :
    (State.next fields outer).AwaitsKey fields outer where
  stays c space := by rw [step, if_pos space]
  begins := rfl

theorem step_behind_of_isSpace (value : Json) (outer : List Frame) (c : Char) (space : isSpace c) :
    step (.behind value outer) c = some (.behind value outer) := by
  rw [step]
  exact if_pos space

theorem step_before_of_isSpace (outer : List Frame) (c : Char) (space : isSpace c) :
    step (.before outer) c = some (.before outer) := by
  rw [step, if_pos space]

theorem step_named_of_isSpace (fields : List (String × Json)) (key : String) (outer : List Frame)
    (c : Char) (space : isSpace c) :
    step (.named fields key outer) c = some (.named fields key outer) := by
  rw [step, if_pos space]

mutual

/-- A value is read from before it to behind it, unless it is a number that goes on. -/
theorem read?_of_spells {s : List Char} {value : Json} (spells : Spells s value)
    (outer : List Frame) {rest : List Char} (noDigit : NoDigit rest) :
    read? (.before outer) (s ++ rest) = read? (.behind value outer) rest := by
  cases spells with
  | text spells => rw [read?_string spells rfl, closed, String.ofList_toList]
  | number spells => exact read?_number spells noDigit
  | empty allSpace =>
    rw [List.append_assoc, List.cons_append, read?_cons rfl,
      read?_append_of_allSpace allSpace (awaitsKey_opened outer).stays]
    rfl
  | object spells allSpace =>
    -- The blanks before the closing brace are left to the fields, since a number may end there.
    rw [List.append_assoc, List.append_assoc, List.cons_append, read?_cons rfl,
      List.singleton_append, read?_of_spellsFields spells (awaitsKey_opened outer) allSpace,
      List.nil_append]

theorem read?_of_spellsFields {s : List Char} {fields : List (String × Json)}
    (spells : SpellsFields s fields) {state : State} {passed : List (String × Json)}
    {outer : List Frame} (awaits : state.AwaitsKey passed outer) {blanks rest : List Char}
    (allSpace : AllSpace blanks) :
    read? state (s ++ (blanks ++ '\x7d' :: rest)) =
      read? (.behind (.object (passed ++ fields)) outer) rest := by
  cases spells with
  | last spells =>
    rw [read?_of_spellsField spells awaits (noDigit_append allSpace (noDigit_cons rfl rest)),
      read?_append_of_allSpace allSpace (step_behind_of_isSpace _ _)]
    rfl
  | cons first allSpaceBetween spells =>
    rw [List.append_assoc, List.append_assoc, List.cons_append,
      read?_of_spellsField first awaits (noDigit_append allSpaceBetween (noDigit_cons rfl _)),
      read?_append_of_allSpace allSpaceBetween (step_behind_of_isSpace _ _), read?_cons rfl,
      read?_of_spellsFields spells (awaitsKey_next _ outer) allSpace, List.append_assoc]
    rfl

theorem read?_of_spellsField {s : List Char} {field : String × Json}
    (spells : SpellsField s field) {state : State} {fields : List (String × Json)}
    {outer : List Frame} (awaits : state.AwaitsKey fields outer) {rest : List Char}
    (noDigit : NoDigit rest) :
    read? state (s ++ rest) = read? (.behind field.2 (⟨fields, field.1⟩ :: outer)) rest := by
  cases spells with
  | pair spellsKey spellsValue spaceBefore spaceBehind spaceBetween =>
    simp only [List.append_assoc, List.cons_append]
    rw [read?_append_of_allSpace spaceBefore awaits.stays, read?_string spellsKey awaits.begins,
      closed, String.ofList_toList,
      read?_append_of_allSpace spaceBehind (step_named_of_isSpace fields _ outer),
      read?_cons rfl, read?_append_of_allSpace spaceBetween (step_before_of_isSpace _),
      read?_of_spells spellsValue _ noDigit]

end

end State

/-! ## Texts -/

theorem read?_of_isTextOf {text : String} {value : Json} (isText : IsTextOf text value) :
    read? text = some value := by
  cases isText with
  | @text before s behind value spells spaceBefore spaceBehind =>
    have noDigit : State.NoDigit (behind ++ []) := State.noDigit_append spaceBehind nofun
    rw [read?, String.toList_ofList, List.append_assoc, ← List.append_nil behind,
      State.read?_append_of_allSpace spaceBefore (State.step_before_of_isSpace _),
      State.read?_of_spells spells [] noDigit,
      State.read?_append_of_allSpace spaceBehind (State.step_behind_of_isSpace _ _)]
    rfl

example : read? "\x7b \"\\u00e9\": 10\n\x7d" = some (.object [("é", .number 10)]) := by
  rfl

theorem IsTextOf.unique {text : String} {value other : Json} (isText : IsTextOf text value)
    (isTextToo : IsTextOf text other) : value = other :=
  Option.some.inj ((read?_of_isTextOf isText).symm.trans (read?_of_isTextOf isTextToo))

end ElfCarve.Json
