import ElfCarve.Buffer
import ElfCarve.Proofs.Image.Windows

/-!
# Carving a buffer that grows

A buffer may be carved while data is still being appended to it, as often as one likes and also too
early.  What comes out in the end is the image that one carving of all the data would cut out: only
the first carving that succeeds removes padding, and it removes all of it.

* `Edit.Feeds` are the edits that such a session is made of.
* `Fed` is the invariant: how the buffer and the layouts that were found stand to all the data.
* `Fed.step` says that one edit keeps it, and `Fed.run` that a session does.
-/

namespace ElfCarve

namespace Edit

inductive Feeds : Edit → Prop
  | append (data : Bytes) : Feeds (.append data)
  | carve : Feeds .carve

def appended : Edit → Bytes
  | .append data => data
  | _ => []

end Edit

/-- How a buffer and the layouts found so far stand to the whole of the data that came in. -/
inductive Fed (whole : Bytes) : Bytes → List Layout → Prop
  | waiting : Fed whole whole []
  /-- The image was found, and after that it was found again as it was. -/
  | carved {offset copies : Nat} (found : firstMagic? whole = some offset) :
    Fed whole (whole.drop offset) (.ofOffset offset :: .replicate copies .bare)

namespace Fed

variable {whole buffer : Bytes} {layouts : List Layout} {edit : Edit} {edits : List Edit}

theorem append (fed : Fed whole buffer layouts) (data : Bytes) :
    Fed (whole ++ data) (buffer ++ data) layouts := by
  cases fed with
  | waiting => exact .waiting
  | @carved offset copies found =>
    have room := room_of_prefix_drop (firstMagic?_eq_some_iff.mp found).1
    rw [← List.drop_append_of_le_length (by omega)]
    exact .carved (firstMagic?_append_of_eq_some found)

theorem carve (fed : Fed whole buffer layouts) :
    Fed whole (Edit.carve.apply buffer) (layouts ++ (Edit.carve.carved? buffer).toList) := by
  simp only [Edit.apply, Edit.carved?]
  cases fed with
  | waiting =>
    rw [carve?_eq_map_firstMagic?]
    cases found : firstMagic? whole with
    | none => exact .waiting
    | some offset =>
      have cut : Fed whole (whole.drop offset) (.ofOffset offset :: .replicate 0 .bare) :=
        .carved found
      exact cut
  | @carved offset copies found =>
    -- What was cut out begins with the magic, so it is cut out as a whole.
    have again := carve?_of_prefix (firstMagic?_eq_some_iff.mp found).1
    rw [again]
    simp only [Option.map_some, Option.getD_some, Option.toList_some, List.cons_append,
      ← List.replicate_succ']
    exact .carved found

theorem step (fed : Fed whole buffer layouts) (feeds : edit.Feeds) :
    Fed (whole ++ edit.appended) (edit.apply buffer)
      (layouts ++ (edit.carved? buffer).toList) := by
  cases feeds with
  | append data => simpa [Edit.appended, Edit.apply, Edit.carved?] using fed.append data
  | carve => simpa [Edit.appended] using fed.carve

theorem run (fed : Fed whole buffer layouts) (feeds : ∀ edit ∈ edits, edit.Feeds) :
    Fed (whole ++ edits.flatMap Edit.appended) (Edit.applyAll buffer edits)
      (layouts ++ Edit.carvings buffer edits) := by
  induction edits generalizing whole buffer layouts with
  | nil => simpa [Edit.applyAll, Edit.carvings] using fed
  | cons edit rest ih =>
    have next := ih (fed.step (feeds edit List.mem_cons_self))
      fun other member => feeds other (List.mem_cons_of_mem edit member)
    simpa [Edit.applyAll, Edit.carvings] using next

/-! ## What the invariant comes to -/

theorem apply_carve (fed : Fed whole buffer layouts) :
    Edit.carve.apply buffer = Edit.carve.apply whole := by
  cases fed with
  | waiting => rfl
  | carved found =>
    have again := carve?_of_prefix (firstMagic?_eq_some_iff.mp found).1
    simp [Edit.apply, again, carve?_eq_map_firstMagic?, found]

theorem countP_le_one (fed : Fed whole buffer layouts) : layouts.countP (· ≠ .bare) ≤ 1 := by
  cases fed with
  | waiting => simp
  | carved =>
    rw [List.countP_cons, List.countP_eq_zero.mpr (by simp)]
    split <;> simp

theorem eq_bare_of_mem_tail (fed : Fed whole buffer layouts) :
    ∀ layout ∈ layouts.tail, layout = .bare := by
  cases fed with
  | waiting => simp
  | carved => simp

/-- All that was left out lay before the image. -/
theorem firstMagic?_eq_sum (fed : Fed whole buffer layouts)
    (found : Edit.carve.carved? buffer ≠ none) :
    firstMagic? whole =
      some ((layouts ++ (Edit.carve.carved? buffer).toList).map Layout.offset).sum := by
  cases fed with
  | waiting =>
    simp only [Edit.carved?, carve?_eq_map_firstMagic?, Option.map_map] at found ⊢
    cases place : firstMagic? whole with
    | none => simp [place] at found
    | some offset => simp
  | carved place =>
    have again := carve?_of_prefix (firstMagic?_eq_some_iff.mp place).1
    have nothing : Layout.bare.offset = 0 := rfl
    simp [Edit.carved?, again, place, nothing]

end Fed

theorem Edit.carvings_append (buffer : Bytes) (first second : List Edit) :
    carvings buffer (first ++ second) =
      carvings buffer first ++ carvings (applyAll buffer first) second := by
  induction first generalizing buffer with
  | nil => rfl
  | cons edit rest ih =>
    rw [List.cons_append, carvings, carvings, ih, List.append_assoc]
    rfl

/-- In a session of appending and carving, in any order, it makes no difference when the buffer is
carved.  A carving at the end leaves what one carving of the whole of the data leaves, at most the
first layout that is found has padding, and what was left out in all is the place of the image in
the whole. -/
theorem carvings_of_feeds {edits : List Edit} (feeds : ∀ edit ∈ edits, edit.Feeds)
    (buffer : Bytes) :
    let whole := buffer ++ edits.flatMap Edit.appended
    let session := edits ++ [.carve]
    Edit.applyAll buffer session = Edit.carve.apply whole ∧
    (Edit.carvings buffer edits).countP (· ≠ .bare) ≤ 1 ∧
    (∀ layout ∈ (Edit.carvings buffer edits).tail, layout = .bare) ∧
    (Edit.carve.carved? (Edit.applyAll buffer edits) ≠ none →
      firstMagic? whole = some ((Edit.carvings buffer session).map Layout.offset).sum) := by
  intro whole session
  have fed : Fed whole (Edit.applyAll buffer edits) (Edit.carvings buffer edits) :=
    Fed.run .waiting feeds
  have last : Edit.applyAll buffer session =
      Edit.carve.apply (Edit.applyAll buffer edits) := List.foldl_append
  have found : Edit.carvings buffer session = Edit.carvings buffer edits ++
      (Edit.carve.carved? (Edit.applyAll buffer edits)).toList := by
    rw [Edit.carvings_append, Edit.carvings, Edit.carvings, List.append_nil]
  rw [last, found]
  exact ⟨fed.apply_carve, fed.countP_le_one, fed.eq_bare_of_mem_tail, fed.firstMagic?_eq_sum⟩

/-- The magic may be completed only after a carving that came too early. -/
theorem carvings_of_feeds_late :
    let edits : List Edit :=
      [.carve, .append [0x45, 0x4c], .carve, .append [0x46], .carve, .append magic]
    let buffer : Bytes := [0, 0, 0x7f]
    Edit.applyAll buffer (edits ++ [.carve]) = magic ++ magic ∧
      Edit.carvings buffer (edits ++ [.carve]) = [.padded 2, .bare] ∧
      firstMagic? (buffer ++ [0x45, 0x4c] ++ [0x46] ++ magic) = some 2 := by
  have feeds : ∀ edit ∈ ([.carve, .append [0x45, 0x4c], .carve, .append [0x46], .carve,
      .append magic] : List Edit), edit.Feeds := by
    simp [Edit.Feeds.append, Edit.Feeds.carve]
  obtain ⟨last, -, -, place⟩ := carvings_of_feeds feeds [0, 0, 0x7f]
  exact ⟨last.trans (by decide), by decide, place (by decide)⟩

end ElfCarve
