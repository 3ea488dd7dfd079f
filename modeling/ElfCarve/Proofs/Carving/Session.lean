import ElfCarve.Proofs.Carving.Delivery

/-!
# Sessions

A session carves again and again, and what one carving wrote may be read or overwritten by a later
one.  However that goes, nothing is lost but the content of files that were written, and no byte in
any file comes from elsewhere than a file that was there at the beginning.

* `Descends` is the invariant: how a file system can stand to the one that a session began with.
* `Descends.carving` says that one carving keeps it, and `carveAll_descends` that a session does.
-/

namespace ElfCarve

open FileSystem

/-- Carves the image of each input in a list and writes it to the output beside it, whatever comes
of the ones before. -/
def carveAll {m : Type → Type} [Monad m] [MonadFiles m] :
    List (Path × Path) → m (List (Logged (Except Failure Report)))
  | [] => return []
  | (input, output) :: rest => do
    let ended ← carveFile input output
    return ended :: (← carveAll rest)

structure Descends (origin fs : FileSystem) : Prop where
  grows : origin.Grows fs
  /-- Every file is the end of a file of the origin. -/
  suffix : ∀ {loc content}, fs.get? loc = some (.file content) →
    ∃ source whole, origin.get? source = some (.file whole) ∧ content <:+ whole
  /-- Every file that is not as it was begins like an image. -/
  image : ∀ {loc content}, fs.get? loc = some (.file content) →
    origin.get? loc ≠ some (.file content) → magic <+: content

namespace Descends

variable {origin fs after : FileSystem}

theorem refl (fs : FileSystem) : Descends fs fs :=
  ⟨.refl fs, fun {loc content} present => ⟨loc, content, present, List.suffix_rfl⟩,
    fun present changed => absurd present changed⟩

theorem addsDirectories {paths : List Path} (descends : Descends origin fs)
    (adds : fs.AddsDirectories paths after) : Descends origin after := by
  have standing {loc : Location} {content : Bytes}
      (present : after.get? loc = some (.file content)) : fs.get? loc = some (.file content) := by
    cases before : fs.get? loc with
    | none => cases (adds.added before present).1
    | some entry => exact (adds.kept before).symm.trans present
  exact ⟨descends.grows.trans adds.grows, fun present => descends.suffix (standing present),
    fun present changed => descends.image (standing present) changed⟩

theorem sets {loc source : Location} {data image : Bytes} (descends : Descends origin fs)
    (stored : fs.Sets loc (.file image) after)
    (kind : ∀ old, fs.get? loc = some old → old.SameKind (.file image))
    (read : fs.get? source = some (.file data)) (isSuffix : image <:+ data)
    (isImage : magic <+: image) : Descends origin after := by
  refine ⟨descends.grows.trans (stored.grows kind), ?_, ?_⟩
  · intro other content present
    by_cases same : loc = other
    · subst same
      cases stored.here.symm.trans present
      obtain ⟨root, whole, stands, part⟩ := descends.suffix read
      exact ⟨root, whole, stands, isSuffix.trans part⟩
    · exact descends.suffix ((stored.elsewhere same).symm.trans present)
  · intro other content present changed
    by_cases same : loc = other
    · subst same
      cases stored.here.symm.trans present
      exact isImage
    · exact descends.image ((stored.elsewhere same).symm.trans present) changed

theorem carving {input output : Path} {ended : Logged (Except Failure Report)}
    (descends : Descends origin fs) (carving : Carving fs input output ended after) :
    Descends origin after := by
  cases carving with
  | noInput | noImage => exact descends
  | refused _ _ refused => exact descends.addsDirectories refused.adds_of_error
  | done read carved delivered =>
    -- What is stored was read before the directories were added, but it is still there.
    obtain ⟨between, adds, ⟨rfl, -⟩ | ⟨loc, stored, -, kind⟩⟩ := delivered.effect_of_ok
    · exact descends.addsDirectories adds
    · obtain ⟨source, -, present⟩ := entryAt?_eq_some_iff.mp (contents?_eq_some_iff.mp read)
      exact (descends.addsDirectories adds).sets stored kind (adds.kept present)
        (suffix_of_carve? carved) (prefix_of_carve? carved)

end Descends

theorem descends_carveAll {origin : FileSystem} (requests : List (Path × Path))
    (fs : FileSystem) (descends : Descends origin fs) :
    Descends origin ((carveAll requests : StateM FileSystem _) fs).2 := by
  induction requests generalizing fs with
  | nil => exact descends
  | cons request rest ih =>
    rw [carveAll]
    exact ih _ (descends.carving (ElfCarve.carving fs request.1 request.2))

/-- After any session every entry is there with its kind, every file holds the end of a file that
was there before, and every file that is new or another begins like an image. -/
theorem carveAll_descends (fs : FileSystem) (requests : List (Path × Path)) :
    let after := ((carveAll requests : StateM FileSystem _) fs).2
    (∀ loc entry, fs.get? loc = some entry →
      ∃ later, after.get? loc = some later ∧ entry.SameKind later) ∧
    (∀ loc content, after.get? loc = some (.file content) →
      ∃ source whole, fs.get? source = some (.file whole) ∧ content <:+ whole) ∧
    (∀ loc content, after.get? loc = some (.file content) →
      fs.get? loc ≠ some (.file content) → magic <+: content) := by
  intro after
  have descends : Descends fs after := descends_carveAll requests fs (.refl fs)
  exact ⟨fun _ _ => descends.grows.kept, fun _ _ => descends.suffix, fun _ _ => descends.image⟩

end ElfCarve
