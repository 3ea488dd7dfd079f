import ElfCarve.Image
import ElfCarve.Path
import ElfCarve.Text.Json

/-!
# Reports

What was carved out of which file, as a value and as JSON.  A report names its paths as text, so it
has a JSON form only if both of them are text.
-/

namespace ElfCarve

def Layout.toJson : Layout → Json
  | .bare => .object [("kind", .text "bare")]
  | .padded offset => .object [("kind", .text "padded"), ("offset", .number offset)]

structure Report where
  input : Path
  output : Path
  layout : Layout
  padding : Nat
  written : Nat
  deriving DecidableEq, Repr

namespace Report

/-- The JSON form of a report, if both paths are text. -/
def toJson? (report : Report) : Option Json := do
  let input ← report.input.text?
  let output ← report.output.text?
  return .object [("input", .text input), ("output", .text output),
    ("layout", report.layout.toJson), ("padding", .number report.padding),
    ("written", .number report.written)]

def notTextMessage : String :=
  "path contains invalid UTF-8 characters"

end Report

end ElfCarve
