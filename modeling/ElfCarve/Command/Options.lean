import ElfCarve.Command.Token
import ElfCarve.Path
import ElfCarve.Text.Terminal

/-!
# Options of the command

The tokens of a line are taken in one by one, and the first that does not fit ends the reading.

An operand is looked at when the next token that fits is taken in, or at the end of the line; only
then is an empty one refused.  So a token that does not fit is reported before an empty operand in
front of it.

* `Options` is what a line that is accepted asks for.
* `UsageError` is why a line is refused, and `Stop` is why there are no options.
* `Options.parse` reads a line.
-/

namespace ElfCarve.Command

structure Options where
  input : Path
  output : Path
  json : Bool
  verbosity : Nat
  deriving DecidableEq, Repr

inductive Operand where
  | input
  | output
  deriving DecidableEq, Repr

def Operand.display : Operand → String
  | .input => "<INPUT>"
  | .output => "<OUTPUT>"

inductive UsageError where
  /-- An option that does not exist, or an operand too many. -/
  | unexpectedArgument (shown : String)
  | unexpectedValue (value : String) (flag : Flag)
  | repeatedJson
  | emptyOperand (operand : Operand)
  | missingOperands (operands : List Operand)
  deriving DecidableEq, Repr

/-- Why a line is refused, in words.  What the line itself says is repeated as a terminal would show
it. -/
def UsageError.message : UsageError → String
  | .unexpectedArgument shown => "unexpected argument '" ++ Terminal.visible shown ++ "' found"
  | .unexpectedValue value flag =>
    "unexpected value '" ++ Terminal.visible value ++ "' for '" ++ flag.display
      ++ "' found; no more were expected"
  | .repeatedJson => "the argument '" ++ Flag.json.display ++ "' cannot be used multiple times"
  | .emptyOperand operand =>
    "a value is required for '" ++ operand.display ++ "' but none was supplied"
  | .missingOperands operands =>
    operands.foldl (fun text operand => text ++ "\n  " ++ operand.display)
      "the following required arguments were not provided:"

inductive Stop where
  | help
  | version
  | misuse (error : UsageError)
  deriving DecidableEq, Repr

/-- The greatest verbosity; a line can ask for more and does not get it. -/
def verbosityLimit : Nat := 255

structure Progress where
  json : Bool
  verbosity : Nat
  /-- The operands in their order, at most two. -/
  operands : List Bytes
  deriving DecidableEq, Repr

namespace Progress

def start : Progress :=
  ⟨false, 0, []⟩

/-- Refuses an empty operand. -/
def settle (progress : Progress) : Except Stop Progress :=
  match progress.operands with
  | [] :: _ => .error (.misuse (.emptyOperand .input))
  | [_, []] => .error (.misuse (.emptyOperand .output))
  | _ => .ok progress

/-- Takes in a flag after all operands before it are in order. -/
def takeFlag (progress : Progress) : Flag → Except Stop Progress
  | .json =>
    if progress.json then .error (.misuse .repeatedJson) else .ok { progress with json := true }
  | .verbose => .ok { progress with verbosity := min verbosityLimit (progress.verbosity + 1) }
  | .help => .error .help
  | .version => .error .version

def take (progress : Progress) : Token → Except Stop Progress
  | .flag flag => progress.settle.bind (·.takeFlag flag)
  | .operand bytes =>
    if progress.operands.length < 2 then
      progress.settle.map fun settled => { settled with operands := settled.operands ++ [bytes] }
    else .error (.misuse (.unexpectedArgument (Utf8.decodeLossy bytes)))
  | .unknown shown => .error (.misuse (.unexpectedArgument shown))
  | .unneeded value flag => .error (.misuse (.unexpectedValue value flag))

def finish (progress : Progress) : Except Stop Options :=
  progress.settle.bind fun settled =>
    match settled.operands with
    | [] => .error (.misuse (.missingOperands [.input, .output]))
    | [_] => .error (.misuse (.missingOperands [.output]))
    | input :: output :: _ => .ok ⟨⟨input⟩, ⟨output⟩, settled.json, settled.verbosity⟩

def run (progress : Progress) : List Token → Except Stop Options
  | [] => progress.finish
  | token :: rest => (progress.take token).bind (·.run rest)

end Progress

def Options.parse (arguments : List Bytes) : Except Stop Options :=
  Progress.start.run (Token.ofArguments arguments)

end ElfCarve.Command
