/-!
# Levels of log records

Levels are ordered by weight, and a threshold lets pass the records down to a weight, or none.
-/

namespace ElfCarve

inductive Level where
  | error
  | warn
  | info
  | debug
  | trace
  deriving DecidableEq, Repr

namespace Level

def rank : Level → Nat
  | .error => 1
  | .warn => 2
  | .info => 3
  | .debug => 4
  | .trace => 5

def label : Level → String
  | .error => "ERROR"
  | .warn => "WARN "
  | .info => "INFO "
  | .debug => "DEBUG"
  | .trace => "TRACE"

end Level

inductive Threshold where
  | off
  | upTo (level : Level)
  deriving DecidableEq, Repr

namespace Threshold

def all : Threshold := .upTo .trace

def admits : Threshold → Level → Bool
  | .off, _ => false
  | .upTo least, level => level.rank ≤ least.rank

/-- The threshold of a word, in any mixture of capital and small ASCII letters. -/
def ofWord? (word : List Char) : Option Threshold :=
  [("off", .off), ("error", .upTo .error), ("warn", .upTo .warn), ("info", .upTo .info),
    ("debug", .upTo .debug), ("trace", .upTo .trace)].lookup
      (String.ofList (word.map Char.toLower))

end Threshold

end ElfCarve
