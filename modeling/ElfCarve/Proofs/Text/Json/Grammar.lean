import Mathlib
import ElfCarve.Text.Json

/-!
# What JSON texts stand for

The grammar of JSON as far as there are values for it: strings with all escapes, natural numbers and
objects, with blanks between the tokens.  It says which texts are well-formed and what each of them
stands for, and knows nothing of any printer or reader.

* `Spells` is the grammar of a value, and `IsTextOf` that of a whole text.
* `isTextOf_compact` and `isTextOf_pretty` say that both styles of a value are texts of it.
-/

namespace ElfCarve.Json

/-! ## Characters and strings -/

def isSpace (c : Char) : Bool :=
  c = ' ' || c = '\t' || c = '\n' || c = '\r'

abbrev AllSpace (blanks : List Char) : Prop :=
  ∀ c ∈ blanks, isSpace c

theorem allSpace_nil : AllSpace [] :=
  nofun

def hexDigit? (c : Char) : Option Nat :=
  if '0' ≤ c ∧ c ≤ '9' then some (c.toNat - '0'.toNat)
  else if 'a' ≤ c ∧ c ≤ 'f' then some (c.toNat - 'a'.toNat + 10)
  else if 'A' ≤ c ∧ c ≤ 'F' then some (c.toNat - 'A'.toNat + 10)
  else none

/-- The character that a letter behind a backslash stands for. -/
def unescape? : Char → Option Char
  | '"' => some '"'
  | '\\' => some '\\'
  | '/' => some '/'
  | 'b' => some '\x08'
  | 'f' => some '\x0c'
  | 'n' => some '\n'
  | 'r' => some '\r'
  | 't' => some '\t'
  | _ => none

inductive SpellsCode : List Char → Nat → Prop where
  | digits {a b c d : Char} {w x y z : Nat} (first : hexDigit? a = some w)
      (second : hexDigit? b = some x) (third : hexDigit? c = some y)
      (fourth : hexDigit? d = some z) :
      SpellsCode [a, b, c, d] (((w * 16 + x) * 16 + y) * 16 + z)

/-- Whether a number is the first half of the code of a character beyond four digits. -/
def isHighHalf (code : Nat) : Bool :=
  0xd800 ≤ code && code < 0xdc00

def isLowHalf (code : Nat) : Bool :=
  0xdc00 ≤ code && code < 0xe000

def joinHalves (high low : Nat) : Nat :=
  0x10000 + (high - 0xd800) * 0x400 + (low - 0xdc00)

inductive SpellsChar : List Char → Char → Prop where
  | plain {c : Char} (noControl : 0x20 ≤ c.toNat) (noQuote : c ≠ '"') (noBackslash : c ≠ '\\') :
      SpellsChar [c] c
  | escaped {letter c : Char} (stands : unescape? letter = some c) : SpellsChar ['\\', letter] c
  | code {digits : List Char} {c : Char} (spells : SpellsCode digits c.toNat) :
      SpellsChar ('\\' :: 'u' :: digits) c
  | halves {first second : List Char} {high low : Nat} {c : Char} (spells : SpellsCode first high)
      (spellsToo : SpellsCode second low) (isHigh : isHighHalf high) (isLow : isLowHalf low)
      (joined : c.toNat = joinHalves high low) :
      SpellsChar ('\\' :: 'u' :: first ++ '\\' :: 'u' :: second) c

inductive SpellsChars : List Char → List Char → Prop where
  | nil : SpellsChars [] []
  | cons {s t : List Char} {c : Char} {cs : List Char} (first : SpellsChar s c)
      (rest : SpellsChars t cs) : SpellsChars (s ++ t) (c :: cs)

inductive SpellsString : List Char → String → Prop where
  | quoted {inside : List Char} {text : String} (spells : SpellsChars inside text.toList) :
      SpellsString ('"' :: inside ++ ['"']) text

/-! ## Values -/

/-- A natural number is written in decimal, without zeros in front. -/
structure SpellsNumber (digits : List Char) (value : Nat) : Prop where
  ne_nil : digits ≠ []
  isDigit : ∀ c ∈ digits, c.isDigit
  noZero : digits.head? = some '0' → digits = ['0']
  value_eq : value = Nat.ofDigitChars 10 digits 0

mutual

inductive Spells : List Char → Json → Prop where
  | text {s : List Char} {text : String} (spells : SpellsString s text) : Spells s (.text text)
  | number {s : List Char} {value : Nat} (spells : SpellsNumber s value) : Spells s (.number value)
  | empty {blanks : List Char} (allSpace : AllSpace blanks) :
      Spells ('\x7b' :: blanks ++ ['\x7d']) (.object [])
  | object {s blanks : List Char} {fields : List (String × Json)} (spells : SpellsFields s fields)
      (allSpace : AllSpace blanks) : Spells ('\x7b' :: s ++ blanks ++ ['\x7d']) (.object fields)

/-- How the fields of an object may be written, of which there is at least one. -/
inductive SpellsFields : List Char → List (String × Json) → Prop where
  | last {s : List Char} {field : String × Json} (spells : SpellsField s field) :
      SpellsFields s [field]
  | cons {s blanks t : List Char} {field : String × Json} {fields : List (String × Json)}
      (first : SpellsField s field) (allSpace : AllSpace blanks) (rest : SpellsFields t fields) :
      SpellsFields (s ++ blanks ++ ',' :: t) (field :: fields)

inductive SpellsField : List Char → String × Json → Prop where
  | pair {before name behind between s : List Char} {key : String} {value : Json}
      (spellsKey : SpellsString name key) (spellsValue : Spells s value)
      (spaceBefore : AllSpace before) (spaceBehind : AllSpace behind)
      (spaceBetween : AllSpace between) :
      SpellsField (before ++ name ++ behind ++ ':' :: between ++ s) (key, value)

end

inductive IsTextOf : String → Json → Prop where
  | text {before s behind : List Char} {value : Json} (spells : Spells s value)
      (spaceBefore : AllSpace before) (spaceBehind : AllSpace behind) :
      IsTextOf (String.ofList (before ++ s ++ behind)) value

/-! ## What is printed -/

theorem hexDigit?_digitChar : ∀ digit < 16, hexDigit? (Nat.digitChar digit) = some digit := by
  decide

theorem spellsCode_of_lt {code : Nat} (bound : code < 0x20) :
    SpellsCode ['0', '0', Nat.digitChar (code / 16), Nat.digitChar (code % 16)] code := by
  have spells := SpellsCode.digits (hexDigit?_digitChar 0 (by decide))
    (hexDigit?_digitChar 0 (by decide)) (hexDigit?_digitChar (code / 16) (by omega))
    (hexDigit?_digitChar (code % 16) (by omega))
  rwa [show ((0 * 16 + 0) * 16 + code / 16) * 16 + code % 16 = code by omega] at spells

theorem spellsChar_escape (c : Char) : SpellsChar (escape c) c := by
  unfold escape
  split_ifs with quote backslash backspace formFeed lineFeed carriageReturn tab control
  on_goal 8 => exact .code (spellsCode_of_lt control)
  on_goal 8 => exact .plain (Nat.le_of_not_lt control) quote backslash
  -- In the other cases a letter stands for the character.
  all_goals
    subst_vars
    exact .escaped rfl

theorem spellsString_quote (text : String) : SpellsString (quote text) text := by
  refine .quoted ?_
  induction text.toList with
  | nil => exact .nil
  | cons c cs ih => exact .cons (spellsChar_escape c) ih

theorem head?_toDigits {value : Nat} (zero : (Nat.toDigits 10 value).head? = some '0') :
    value = 0 := by
  induction value using Nat.strong_induction_on with
  | _ value ih =>
    rw [Nat.toDigits_eq_if (by decide)] at zero
    split at zero
    next small =>
      have isZero : ∀ digit < 10, [Nat.digitChar digit].head? = some '0' → digit = 0 := by
        decide
      exact isZero value small zero
    next large =>
      rw [List.head?_append_of_ne_nil _ Nat.toDigits_ne_nil] at zero
      have quotient := ih (value / 10) (by omega) zero
      omega

theorem spellsNumber_toDigits (value : Nat) : SpellsNumber (Nat.toDigits 10 value) value where
  ne_nil := Nat.toDigits_ne_nil
  isDigit _ := Nat.isDigit_of_mem_toDigits (by decide) (by decide)
  noZero zero := by
    rw [head?_toDigits zero]
    rfl
  value_eq := Nat.ofDigitChars_ten_toDigits.symm

structure Style.IsBlank (style : Style) : Prop where
  lineBreak : ∀ depth, AllSpace (style.lineBreak depth)
  afterColon : AllSpace style.afterColon

theorem Style.compact_isBlank : Style.compact.IsBlank :=
  ⟨fun _ => nofun, nofun⟩

theorem Style.pretty_isBlank : Style.pretty.IsBlank where
  lineBreak depth := by
    rw [AllSpace, Style.pretty, List.forall_mem_cons]
    refine ⟨rfl, fun c member => ?_⟩
    rw [List.eq_of_mem_replicate member]
    rfl
  afterColon := List.forall_mem_singleton.mpr rfl

mutual

theorem spells_print {style : Style} (isBlank : style.IsBlank) (depth : Nat) :
    (value : Json) → Spells (print style depth value) value
  | .text value => by
    rw [print]
    exact .text (spellsString_quote value)
  | .number value => by
    rw [print]
    exact .number (spellsNumber_toDigits value)
  | .object [] => by
    rw [print]
    exact .empty allSpace_nil
  | .object (field :: fields) => by
    rw [print]
    exact .object (spellsFields_printFields isBlank depth (field :: fields) nofun)
      (isBlank.lineBreak depth)

theorem spellsFields_printFields {style : Style} (isBlank : style.IsBlank) (depth : Nat) :
    (fields : List (String × Json)) → fields ≠ [] →
      SpellsFields (printFields style depth fields) fields
  | [], filled => absurd rfl filled
  | [field], _ => by
    rw [printFields]
    exact .last (spellsField_printField isBlank depth field)
  | field :: next :: fields, _ => by
    change SpellsFields
      (printField style depth field ++ ',' :: printFields style depth (next :: fields)) _
    have rest := spellsFields_printFields isBlank depth (next :: fields) nofun
    have spells := SpellsFields.cons (spellsField_printField isBlank depth field) allSpace_nil rest
    rwa [List.append_nil] at spells

theorem spellsField_printField {style : Style} (isBlank : style.IsBlank) (depth : Nat) :
    (field : String × Json) → SpellsField (printField style depth field) field
  | (key, value) => by
    rw [printField]
    have spells := SpellsField.pair (spellsString_quote key)
      (spells_print isBlank (depth + 1) value) (isBlank.lineBreak (depth + 1)) allSpace_nil
      isBlank.afterColon
    rwa [List.append_nil] at spells

end

theorem isTextOf_print {style : Style} (isBlank : style.IsBlank) (value : Json) :
    IsTextOf (String.ofList (print style 0 value)) value := by
  have text := IsTextOf.text (spells_print isBlank 0 value) allSpace_nil allSpace_nil
  rwa [List.append_nil] at text

theorem isTextOf_compact (value : Json) : IsTextOf value.compact value :=
  isTextOf_print Style.compact_isBlank value

theorem isTextOf_pretty (value : Json) : IsTextOf value.pretty value :=
  isTextOf_print Style.pretty_isBlank value

end ElfCarve.Json
