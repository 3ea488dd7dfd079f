import ElfCarve.Proofs.Carving.Delivery
import ElfCarve.Proofs.FileSystem.Contrast
import ElfCarve.Proofs.Image.Split

/-!
# What the bytes of a padding decide

Two inputs with the same image behind paddings of the same length are carved alike, whatever the
bytes of the paddings are.  The results are equal and so are the files that come of it, also where
the output is the input itself, whose padding is then gone.  Only one thing that is told tells the
paddings apart: whether all bytes of them are zero.
-/

namespace ElfCarve

open FileSystem

variable {one two : FileSystem} {loc : Location} {a b p q : Bytes} {input output : Path}

/-! ## Writing the output -/

theorem FileSystem.IgnoresContents.ensureParent (path : Path) :
    IgnoresContents (ElfCarve.ensureParent path) := by
  rw [ElfCarve.ensureParent]
  split
  next => exact .pure _
  next parent _ =>
    split
    next => exact .pure _
    next => exact (IgnoresContents.makeFirst _).bind fun made => .pure _

theorem FileSystem.Differs.writeOutput (differs : one.Differs loc a b two) (output : Path)
    (image : Bytes) :
    WrittenAlike output loc a b ((ElfCarve.writeOutput output image : StateM FileSystem _) one)
      ((ElfCarve.writeOutput output image : StateM FileSystem _) two) := by
  obtain ⟨same, between⟩ := IgnoresContents.ensureParent output differs
  cases ensured : (ElfCarve.ensureParent output : StateM FileSystem _) one with
  | mk result made =>
    cases ensuredToo : (ElfCarve.ensureParent output : StateM FileSystem _) two with
    | mk resultToo madeToo =>
      rw [ensured, ensuredToo] at same between
      cases same
      cases result with
      | error failure =>
        rw [run_writeOutput_of_error ensured, run_writeOutput_of_error ensuredToo]
        exact .failed between failure
      | ok =>
        rw [run_writeOutput_of_ensured ensured, run_writeOutput_of_ensured ensuredToo]
        exact (between.write output image).mapError _

/-! ## What is told -/

def lengthEvents (input : Path) (p q : Bytes) : List Event :=
  [.read (p ++ q).length input,
    if p = [] then .bareInput input else .paddedInput p.length input]

def fillingEvents (input : Path) (p : Bytes) : List Event :=
  if ∃ byte ∈ p, byte ≠ 0 then [.filledPadding input p.length] else []

theorem findings_append (input : Path) (p q : Bytes) :
    findings input (.ofOffset p.length) (p ++ q) =
      lengthEvents input p q ++ fillingEvents input p := by
  simp only [findings, padding_append, layoutEvents, Layout.offset_ofOffset, fillingEvents,
    List.any_eq_true, decide_eq_true_eq]
  cases p with
  | nil => rfl
  | cons byte rest => split <;> rfl

theorem lengthEvents_congr {p' : Bytes} (length : p.length = p'.length) :
    lengthEvents input p q = lengthEvents input p' q := by
  simp only [lengthEvents, List.length_append, ← List.length_eq_zero_iff, length]

/-! ## The whole -/

theorem run_carveFile_append {fs : FileSystem} (leads : fs.target? input = some loc)
    (isFile : fs.get? loc = some (.file (p ++ q))) (free : ¬ magic <:+: p) (image : magic <+: q) :
    (carveFile input output : StateM FileSystem _) fs =
      ((lengthEvents input p q ++ fillingEvents input p,
        ((writeOutput output q : StateM FileSystem _) fs).1.map fun () =>
          ⟨input, output, .ofOffset p.length, p.length, q.length⟩),
        ((writeOutput output q : StateM FileSystem _) fs).2) := by
  have read : fs.contents? input = some (p ++ q) :=
    contents?_eq_some_iff.mpr (entryAt?_eq_some_iff.mpr ⟨loc, leads, isFile⟩)
  have carved : carve? (p ++ q) = some (.ofOffset p.length, q) :=
    carve?_append_eq_some_iff.mpr ⟨rfl, image, free⟩
  rw [run_carveFile_of_carve? read carved, findings_append, Layout.offset_ofOffset]

/-- Where two file systems differ only in the padding of the input, carving it comes to the same.
The file systems that are left are equal if the input was written itself, and otherwise differ as
before.  What is told is how long the input and its padding are, and then in each file system
whether the padding there holds anything but zeros. -/
theorem carveFile_ignores_padding {p' : Bytes} (differs : one.Differs loc (p ++ q) (p' ++ q) two)
    (length : p.length = p'.length) (free : ¬ magic <:+: p) (free' : ¬ magic <:+: p')
    (image : magic <+: q) (leads : one.target? input = some loc) (output : Path) :
    let ended := (carveFile input output : StateM FileSystem _) one
    let ended' := (carveFile input output : StateM FileSystem _) two
    let written := (∃ report, ended.1.2 = .ok report) ∧ ended.2.target? output = some loc
    ended.1.2 = ended'.1.2 ∧
    (written → ended.2 = ended'.2) ∧
    (¬ written → ended.2.Differs loc (p ++ q) (p' ++ q) ended'.2) ∧
    ended.1.1 = lengthEvents input p q ++ fillingEvents input p ∧
    ended'.1.1 = lengthEvents input p q ++ fillingEvents input p' ∧
    (lengthEvents input p q).map Event.level = [.debug, .info] ∧
    ∀ padding, ∀ event ∈ fillingEvents input padding, event.level = .debug := by
  intro ended ended' written
  have run : ended = _ := run_carveFile_append leads differs.left free image
  have run' : ended' = _ :=
    run_carveFile_append ((differs.target? input).symm.trans leads) differs.right free' image
  rw [← length, ← lengthEvents_congr length] at run'
  have alike : WrittenAlike output loc (p ++ q) (p' ++ q) (ended.1.2, ended.2)
      (ended'.1.2, ended'.2) := by
    rw [run, run']
    exact (differs.writeOutput output q).map _
  refine ⟨alike.result_eq, alike.eq_of_written, alike.differs_of_not_written, by rw [run],
    by rw [run'], ?_, fun padding event told => ?_⟩
  · by_cases bare : p = []
    · simp [lengthEvents, bare, Event.level]
    · simp [lengthEvents, bare, Event.level]
  · unfold fillingEvents at told
    split at told
    next =>
      cases List.mem_singleton.mp told
      rfl
    next => cases told

/-- A working directory with a file `a` of one byte of padding and a magic. -/
def paddedWith (byte : UInt8) : FileSystem :=
  fresh.add [session, temporary] ⟨Utf8.encode "a", valid_a⟩ (.file (byte :: magic))

/-- A padding that is not zero is told of, and then it is gone with all that it was. -/
theorem carveFile_ignores_padding_in_place :
    let input : Path := .ofText "a"
    let output : Path := .ofText "new/../a"
    let ended := (carveFile input output : StateM FileSystem _) (paddedWith 0)
    let ended' := (carveFile input output : StateM FileSystem _) (paddedWith 1)
    ended.1.2 = .ok ⟨input, output, .padded 1, 1, 4⟩ ∧ ended.1.2 = ended'.1.2 ∧
      ended.2 = ended'.2 ∧
      ended.1.1 = [.read 5 input, .paddedInput 1 input] ∧
      ended'.1.1 = [.read 5 input, .paddedInput 1 input, .filledPadding input 1] := by
  have differs : (paddedWith 0).Differs [⟨Utf8.encode "a", valid_a⟩, session, temporary]
      ([0] ++ magic) ([1] ++ magic) (paddedWith 1) :=
    differs_add (by decide +kernel) (by decide +kernel) _ _
  have leads : (paddedWith 0).target? (.ofText "a") =
      some [⟨Utf8.encode "a", valid_a⟩, session, temporary] := by
    decide +kernel
  obtain ⟨same, written, -, told, told', -⟩ := carveFile_ignores_padding differs rfl (by decide)
    (by decide) List.prefix_rfl leads (.ofText "new/../a")
  have succeeded : ((carveFile (.ofText "a") (.ofText "new/../a") : StateM FileSystem _)
      (paddedWith 0)).1.2 = .ok ⟨.ofText "a", .ofText "new/../a", .padded 1, 1, 4⟩ := by
    cbv
  exact ⟨succeeded, same, written ⟨⟨_, succeeded⟩, by decide +kernel⟩, told.trans (by decide),
    told'.trans (by decide)⟩

end ElfCarve
