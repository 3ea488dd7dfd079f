import ElfCarve.Carving
import ElfCarve.Command.Options
import ElfCarve.Log.Filter

/-!
# Running the command

A run reads the command line, carves the file, and ends in an `Outcome`: an exit status and what is
printed on the two streams.  Neither the filter of the log nor the report has any part in the work
itself.
-/

namespace ElfCarve.Command

structure Outcome where
  status : Nat
  output : String
  /-- The messages that are printed beside the result, one behind the other. -/
  messages : List String
  deriving DecidableEq, Repr

/-- The lines of the messages.  What stands behind the last line end is a line of its own only if it
is not empty. -/
def Outcome.messageLines (outcome : Outcome) : List String :=
  let lines := (outcome.messages.flatMap String.toList).splitOn '\n'
  (if lines.getLast? = some [] then lines.dropLast else lines).map String.ofList

def helpText : String :=
  "Copy the ELF image out of a padded file, dropping everything before its magic\n"
    ++ "\n"
    ++ "Usage: unpack_padded_elf [OPTIONS] <INPUT> <OUTPUT>\n"
    ++ "\n"
    ++ "Arguments:\n"
    ++ "  <INPUT>   Padded (or bare) input file\n"
    ++ "  <OUTPUT>  Where to write the ELF image; parent directories are created\n"
    ++ "\n"
    ++ "Options:\n"
    ++ "      --json        Print a JSON summary to stdout on success\n"
    ++ "  -v, --verbose...  More log output (-v info, -vv debug); RUST_LOG takes precedence\n"
    ++ "  -h, --help        Print help\n"
    ++ "  -V, --version     Print version\n"
    ++ "\n"
    ++ "Paths starting with '-' go after `--`, e.g. `unpack_padded_elf -- -in.so out.so`.\n"

def versionText : String :=
  "unpack_padded_elf 0.1.0\n"

def errorMessage (text : String) : String :=
  "error: " ++ text ++ "\n"

def Stop.outcome : Stop → Outcome
  | .help => ⟨0, helpText, []⟩
  | .version => ⟨0, versionText, []⟩
  | .misuse error => ⟨Failure.refused, "", [errorMessage error.message]⟩

/-- How a run ends that carved an image, where `records` has been logged. -/
def reportOutcome (json : Bool) (records : List String) (report : Report) : Outcome :=
  if json then
    match report.toJson? with
    | some value => ⟨0, value.pretty ++ "\n", records⟩
    | none =>
      ⟨Failure.troubled, "",
        records ++ [errorMessage ("serializing report: " ++ Report.notTextMessage)]⟩
  else ⟨0, "", records⟩

def workOutcome (json : Bool) (filter : Filter) (events : List Event) :
    Except Failure Report → Outcome
  | .error failure =>
    ⟨failure.exitStatus, "", filter.records events ++ [errorMessage failure.chain]⟩
  | .ok report =>
    reportOutcome json (filter.records (events ++ [.wrote report.written report.output])) report

/-- Runs the command with its arguments and, if there is one, a text of directives for the log,
which can end in a pattern of the language at hand. -/
def run {m : Type → Type} [Monad m] [MonadFiles m] [Patterns] (arguments : List Bytes)
    (directives : Option String) : m Outcome :=
  match Options.parse arguments with
  | .error stop => return stop.outcome
  | .ok options => do
    let (events, result) ← carveFile options.input options.output
    let filter := Filter.effective directives options.verbosity
    return workOutcome options.json filter events result

end ElfCarve.Command
