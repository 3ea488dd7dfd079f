import ElfCarve.Proofs.Text.Utf8
import ElfCarve.Report

/-!
# Reports that can be written

A report has a JSON form if and only if both of its paths are text.
-/

namespace ElfCarve

/-- Whether a path is what is written for some text. -/
def Path.IsText (p : Path) : Prop :=
  ∃ text, p = .ofText text

variable {p : Path} {report : Report}

theorem Path.text?_eq_some_iff {text : String} : p.text? = some text ↔ p = .ofText text := by
  obtain ⟨bytes⟩ := p
  rw [text?, Utf8.decode?_eq_some_iff, ofText, Path.mk.injEq]

theorem Path.isText_iff : p.IsText ↔ ∃ text, p.text? = some text := by
  simp only [text?_eq_some_iff, IsText]

instance (p : Path) : Decidable p.IsText :=
  decidable_of_iff (p.text?.isSome = true) (by rw [Option.isSome_iff_exists, Path.isText_iff])

theorem Report.toJson?_isSome_iff :
    report.toJson?.isSome ↔ report.input.IsText ∧ report.output.IsText := by
  rw [Path.isText_iff, Path.isText_iff, toJson?]
  cases report.input.text? with
  | none => simp
  | some input => cases report.output.text? <;> simp

end ElfCarve
