import ElfCarve.Text.Utf8

/-!
# What arguments say

An argument of a command line says one thing or several: a cluster of short options names one
flag after another.  What a whole line says is a list of tokens.  Options that do not exist are
tokens as well, so the first fault of a line is the first in its list.

* `Token.ofArgument` reads one argument, and `Token.ofArguments` a whole line.
-/

namespace ElfCarve.Command

inductive Flag where
  | json
  | verbose
  | help
  | version
  deriving DecidableEq, Repr

namespace Flag

def ofLong? (name : Bytes) : Option Flag :=
  if name = Utf8.encode "json" then some .json
  else if name = Utf8.encode "verbose" then some .verbose
  else if name = Utf8.encode "help" then some .help
  else if name = Utf8.encode "version" then some .version
  else none

def ofShort? : Char → Option Flag
  | 'v' => some .verbose
  | 'h' => some .help
  | 'V' => some .version
  | _ => none

/-- The flag as messages name it; the dots say that it may be repeated. -/
def display : Flag → String
  | .json => "--json"
  | .verbose => "--verbose..."
  | .help => "--help"
  | .version => "--version"

end Flag

inductive Token where
  | flag (flag : Flag)
  | operand (bytes : Bytes)
  /-- An option that does not exist, as messages show it. -/
  | unknown (shown : String)
  /-- A value joined to an option that takes none. -/
  | unneeded (value : String) (flag : Flag)
  deriving DecidableEq, Repr

namespace Token

def ofLong (text : Bytes) : Token :=
  let name := text.takeWhile (· ≠ Bytes.equals)
  match Flag.ofLong? name, text.dropWhile (· ≠ Bytes.equals) with
  | none, _ => .unknown ("--" ++ Utf8.decodeLossy name)
  | some known, [] => .flag known
  | some known, _ :: value => .unneeded (Utf8.decodeLossy value) known

/-- Reads a cluster of short options up to the first that does not exist.  What is no text is shown
to its end. -/
def ofCluster : List (Option Char) → List Token
  | [] => []
  | none :: rest => [.unknown ("-" ++ Utf8.showPieces (none :: rest))]
  | some letter :: rest =>
    match Flag.ofShort? letter with
    | some known => .flag known :: ofCluster rest
    | none => [.unknown ("-" ++ letter.toString)]

/-- Reads one argument.  A single dash is an operand. -/
def ofArgument (argument : Bytes) : List Token :=
  match argument with
  | first :: second :: rest =>
    if first ≠ Bytes.dash then [.operand argument]
    else if second = Bytes.dash then [ofLong rest]
    else ofCluster (Utf8.pieces (second :: rest))
  | _ => [.operand argument]

/-- The argument that makes all further ones operands. -/
def separator : Bytes :=
  [Bytes.dash, Bytes.dash]

def ofArguments : List Bytes → List Token
  | [] => []
  | argument :: rest =>
    if argument = separator then rest.map .operand else ofArgument argument ++ ofArguments rest

end Token

end ElfCarve.Command
