/-!
# JSON text

A JSON value is a string, a natural number or an object whose fields keep their order.  One printer
writes it in every `Style`: on one line without blanks, or with each field on a line of its own.

* `Json.escape` and `Json.quote` write strings.
* `Json.print` writes a value at a depth of nesting, and `Json.compact` and `Json.pretty` are the
  two styles of a whole text.
-/

namespace ElfCarve

inductive Json where
  | text (value : String)
  | number (value : Nat)
  /-- An object; its fields are printed in this order. -/
  | object (fields : List (String × Json))

namespace Json

/-- A character inside a string.  Quotes, backslashes and the controls below U+0020 are escaped, the
common controls by a letter and the others by their code; every other character stands for
itself. -/
def escape (c : Char) : List Char :=
  if c = '"' then ['\\', '"']
  else if c = '\\' then ['\\', '\\']
  else if c = '\x08' then ['\\', 'b']
  else if c = '\x0c' then ['\\', 'f']
  else if c = '\n' then ['\\', 'n']
  else if c = '\r' then ['\\', 'r']
  else if c = '\t' then ['\\', 't']
  else if c.toNat < 0x20 then
    ['\\', 'u', '0', '0', Nat.digitChar (c.toNat / 16), Nat.digitChar (c.toNat % 16)]
  else [c]

def quote (s : String) : List Char :=
  '"' :: s.toList.flatMap escape ++ ['"']

/-- What a printer puts between the tokens of a non-empty object. -/
structure Style where
  /-- The blanks before a field or a closing brace, by the depth of the line they begin. -/
  lineBreak : Nat → List Char
  afterColon : List Char

def Style.compact : Style :=
  ⟨fun _ => [], []⟩

/-- Each field on a line of its own, indented by two spaces a level, and a space after each
colon. -/
def Style.pretty : Style :=
  ⟨fun depth => '\n' :: List.replicate (2 * depth) ' ', [' ']⟩

mutual

/-- Writes a value that stands at a depth of nesting.  An object without fields is a pair of braces
in every style. -/
def print (style : Style) (depth : Nat) : Json → List Char
  | .text value => quote value
  | .number value => Nat.toDigits 10 value
  | .object [] => ['\x7b', '\x7d']
  | .object (field :: fields) =>
    '\x7b' :: printFields style depth (field :: fields) ++ style.lineBreak depth ++ ['\x7d']

def printFields (style : Style) (depth : Nat) : List (String × Json) → List Char
  | [] => []
  | [field] => printField style depth field
  | field :: fields => printField style depth field ++ ',' :: printFields style depth fields

def printField (style : Style) (depth : Nat) : String × Json → List Char
  | (key, value) =>
    style.lineBreak (depth + 1) ++ quote key ++ ':' :: style.afterColon
      ++ print style (depth + 1) value

end

def compact (value : Json) : String :=
  String.ofList (print .compact 0 value)

def pretty (value : Json) : String :=
  String.ofList (print .pretty 0 value)

end Json

end ElfCarve
