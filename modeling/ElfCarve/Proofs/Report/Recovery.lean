import ElfCarve.Proofs.Report
import ElfCarve.Proofs.Text.Json.Reader

/-!
# Recovering a report from its text

A report is written as JSON in two styles, and nothing is lost in either: the text stands for one
value only, and the fields of that value are those of the report.

* `Layout.ofJson?` and `Report.ofJson?` take a value apart again.
* `Report.toJson?_lossless` follows a report through its texts and back.
-/

namespace ElfCarve

variable {report : Report} {value : Json}

def Layout.ofJson? : Json → Option Layout
  | .object fields =>
    match fields.lookup "kind", fields.lookup "offset" with
    | some (.text "bare"), _ => some .bare
    | some (.text "padded"), some (.number offset) => some (.padded offset)
    | _, _ => none
  | _ => none

theorem Layout.ofJson?_toJson (layout : Layout) : ofJson? layout.toJson = some layout := by
  cases layout <;> rfl

theorem Json.read?_compact (value : Json) : read? value.compact = some value :=
  read?_of_isTextOf (isTextOf_compact value)

theorem Json.read?_pretty (value : Json) : read? value.pretty = some value :=
  read?_of_isTextOf (isTextOf_pretty value)

theorem Json.eq_of_text_eq {other : Json}
    (same : value.compact = other.compact ∨ value.pretty = other.pretty) : value = other := by
  rcases same with compact | pretty
  · have read := read?_compact value
    rw [compact, read?_compact] at read
    exact (Option.some.inj read).symm
  · have read := read?_pretty value
    rw [pretty, read?_pretty] at read
    exact (Option.some.inj read).symm

namespace Report

def ofJson? : Json → Option Report
  | .object fields =>
    match fields.lookup "input", fields.lookup "output", fields.lookup "layout",
      fields.lookup "padding", fields.lookup "written" with
    | some (.text input), some (.text output), some layout, some (.number padding),
      some (.number written) =>
      (Layout.ofJson? layout).map fun layout =>
        ⟨.ofText input, .ofText output, layout, padding, written⟩
    | _, _, _, _, _ => none
  | _ => none

theorem ofJson?_of_toJson? (written : report.toJson? = some value) :
    ofJson? value = some report := by
  rw [toJson?] at written
  obtain ⟨input, isInput, written⟩ := Option.bind_eq_some_iff.mp written
  obtain ⟨output, isOutput, written⟩ := Option.bind_eq_some_iff.mp written
  cases written
  change (Layout.ofJson? report.layout.toJson).map _ = _
  rw [Layout.ofJson?_toJson, Option.map_some, ← Path.text?_eq_some_iff.mp isInput,
    ← Path.text?_eq_some_iff.mp isOutput]

/-- A report on paths that are text has a JSON form.  Each of its two texts is well-formed, stands
for that form alone and is read as such, and all fields of the report can be recovered from it.  So
reports that have a text in common are equal, and the two layouts without padding never share one.
A report on another path has no text. -/
theorem toJson?_lossless :
    (∀ report : Report, report.input.IsText ∧ report.output.IsText →
      ∃ value, report.toJson? = some value ∧ ofJson? value = some report ∧
        ∀ text ∈ [value.compact, value.pretty],
          (∀ found, Json.IsTextOf text found ↔ found = value) ∧ Json.read? text = some value) ∧
    (∀ report : Report, ¬ (report.input.IsText ∧ report.output.IsText) →
      report.toJson?.map Json.compact = none ∧ report.toJson?.map Json.pretty = none) ∧
    (∀ (report other : Report) (value otherValue : Json), report.toJson? = some value →
      other.toJson? = some otherValue →
      value.compact = otherValue.compact ∨ value.pretty = otherValue.pretty → report = other) ∧
    Layout.bare.toJson.compact ≠ (Layout.padded 0).toJson.compact ∧
    Layout.bare.toJson.pretty ≠ (Layout.padded 0).toJson.pretty := by
  refine ⟨fun report areText => ?_, fun report notText => ?_,
    fun report other value otherValue written otherWritten same => ?_, ?_⟩
  · obtain ⟨value, written⟩ := Option.isSome_iff_exists.mp (toJson?_isSome_iff.mpr areText)
    refine ⟨value, written, ofJson?_of_toJson? written, fun text isEither => ?_⟩
    have isText : Json.IsTextOf text value := by
      rcases List.mem_pair.mp isEither with rfl | rfl
      · exact Json.isTextOf_compact value
      · exact Json.isTextOf_pretty value
    refine ⟨fun found => ⟨fun isTextToo => isTextToo.unique isText, ?_⟩,
      Json.read?_of_isTextOf isText⟩
    rintro rfl
    exact isText
  · rw [← toJson?_isSome_iff, Option.not_isSome_iff_eq_none] at notText
    rw [notText]
    exact ⟨rfl, rfl⟩
  · obtain rfl := Json.eq_of_text_eq same
    have recovered := ofJson?_of_toJson? written
    rw [ofJson?_of_toJson? otherWritten] at recovered
    exact (Option.some.inj recovered).symm
  · have different : Layout.bare.toJson ≠ (Layout.padded 0).toJson := by
      intro same
      have recovered := Layout.ofJson?_toJson .bare
      rw [same, Layout.ofJson?_toJson] at recovered
      cases recovered
    exact ⟨fun same => different (Json.eq_of_text_eq (.inl same)),
      fun same => different (Json.eq_of_text_eq (.inr same))⟩

end Report

end ElfCarve
