import ElfCarve.Log.Event
import ElfCarve.Log.Pattern
import ElfCarve.Text.Blank

/-!
# Filters of log records

A filter is a list of directives and a test of messages.  Each directive has a threshold for the
targets that begin with a text, or for all targets.  A record is judged by the directive that fits
its target most closely, and then its message by the test.

* `Filter.ofText` reads the text of a filter, directives and perhaps a pattern, and
  `Filter.ofVerbosity` is the filter for a verbosity.
* `Filter.admits` judges a record, and `Filter.records` prints the records that pass.

A text that is no filter in all its parts is read as far as it makes sense.  What is printed about
the other parts is left out here.
-/

namespace ElfCarve

/-- A threshold for the targets that begin with a text, or for all targets if there is none. -/
structure Directive where
  scope : Option (List Char)
  threshold : Threshold
  deriving DecidableEq, Repr

namespace Directive

/-- How closely a directive fits a target, if it does. -/
def fit? (directive : Directive) (target : List Char) : Option Nat :=
  match directive.scope with
  | none => some 0
  | some start => if start.isPrefixOf target then some start.length else none

/-- Reads one directive: a level, a target, or both with `=` between.  A target alone, or with
nothing but blanks behind the sign, lets all its records pass.  Anything else is no directive. -/
def ofWord? (word : List Char) : Option Directive :=
  match word.splitOn '=' with
  | [single] =>
    match Threshold.ofWord? single with
    | some threshold => some ⟨none, threshold⟩
    | none => some ⟨some single, .all⟩
  | [target, level] =>
    if trimBlanks level = [] then some ⟨some target, .all⟩
    else (Threshold.ofWord? (trimBlanks level)).map fun threshold => ⟨some target, threshold⟩
  | _ => none

/-- Adds a directive.  An earlier one of the same scope gives it its place. -/
def insert (directives : List Directive) (directive : Directive) : List Directive :=
  if directives.any (·.scope = directive.scope) then
    directives.map fun other => if other.scope = directive.scope then directive else other
  else directives ++ [directive]

/-- The words of a text between commas, without blanks around them; empty ones do not count. -/
def words (text : List Char) : List (List Char) :=
  ((text.splitOn ',').map trimBlanks).filter (· ≠ [])

/-- Reads directives with commas between them, in the order in which their scopes are first given.
Words that are none are passed over, and if there is none at all, only errors pass. -/
def listOf (text : List Char) : List Directive :=
  match ((words text).filterMap ofWord?).foldl insert [] with
  | [] => [⟨none, .upTo .error⟩]
  | directives => directives

end Directive

structure Filter where
  directives : List Directive
  test : String → Bool

namespace Filter

def uniform (level : Level) : Filter :=
  ⟨[⟨none, .upTo level⟩], fun _ => true⟩

/-- Reads directives, or directives and a pattern with `/` between.  With a further `/` the text says
nothing. -/
def ofText [Patterns] (text : String) : Filter :=
  match text.toList.splitOn '/' with
  | [directives] => ⟨Directive.listOf directives, fun _ => true⟩
  | [directives, pattern] =>
    ⟨Directive.listOf directives, (Patterns.picks? (String.ofList pattern)).getD fun _ => true⟩
  | _ => uniform .error

def ofVerbosity : Nat → Filter
  | 0 => uniform .warn
  | 1 => uniform .info
  | _ => uniform .debug

def effective [Patterns] (directives : Option String) (verbosity : Nat) : Filter :=
  match directives with
  | some text => ofText text
  | none => ofVerbosity verbosity

/-- The threshold of the directive that fits a target most closely.  Of two that fit equally the
later one counts. -/
def threshold (filter : Filter) (target : List Char) : Threshold :=
  (filter.directives.foldl (fun best directive =>
    match directive.fit? target with
    | some closeness => if best.1 ≤ closeness then (closeness, directive.threshold) else best
    | none => best) (0, .off)).2

def admits (filter : Filter) (event : Event) : Bool :=
  (filter.threshold event.target.toList).admits event.level && filter.test event.message

def records (filter : Filter) (events : List Event) : List String :=
  (events.filter filter.admits).map Event.record

end Filter

end ElfCarve
