import ElfCarve.FileSystem.Access
import ElfCarve.Proofs.FileSystem.Route

/-!
# What the file operations do

Each operation that succeeds is described by the entry that it sets and by the place to which its
path leads afterwards.

* `target?_of_grows`: a path goes on leading to where it leads.
* `makeDirectory_eq_ok`: a new directory stands where its path leads, and
  `makeDirectory_of_target?`: none is made where a path leads to something.
* `write_eq_ok`: a file that was written has the content and stands where its path leads, unless the
  path leads to a device, and `write_of_contents?`: a file to which a path leads can be written.
-/

namespace ElfCarve.FileSystem

variable {fs before after : FileSystem} {p : Path} {intent : Intent} {landing : Landing}

def Walkable (p : Path) : Prop :=
  0 ∉ p.bytes ∧ p.bytes ≠ [] ∧ p.bytes.length < pathLimit

theorem Walkable.of_prefix {q : Path} (walkable : Walkable p) (isPrefix : q.bytes <+: p.bytes)
    (filled : q.bytes ≠ []) : Walkable q :=
  ⟨fun zero => walkable.1 (isPrefix.subset zero), filled,
    Nat.lt_of_le_of_lt isPrefix.length_le walkable.2.2⟩

theorem resolve_eq_ok_iff :
    fs.resolve intent p = .ok landing ↔
      Walkable p ∧
        fs.Route intent linkLimit (base fs.workingDirectory p) p.components landing := by
  rw [resolve, Walkable, ← walk_eq_ok_iff]
  split
  next zero => simp [zero]
  next noZero =>
    split
    next empty => simp [empty]
    next filled =>
      split
      next long => simp [Nat.not_lt.mpr long]
      next short =>
        have short := Nat.lt_of_not_le short
        cases walked : fs.walk intent linkLimit (base fs.workingDirectory p) p.components with
        | error errno => simp [Except.mapError]
        | ok reached => simp [Except.mapError, noZero, filled, short]

/-! ## Where a path leads -/

theorem target?_eq_some_iff {loc : Location} :
    fs.target? p = some loc ↔ fs.resolve .look p = .ok (.found loc) := by
  rw [target?]
  split
  next found => simp [found]
  next other =>
    constructor
    · exact fun impossible => nomatch impossible
    · exact fun found => absurd found (other loc)

theorem target?_of_grows {loc : Location} (grows : before.Grows after)
    (leads : before.target? p = some loc) : after.target? p = some loc := by
  rw [target?_eq_some_iff, resolve_eq_ok_iff] at leads ⊢
  obtain ⟨walkable, route⟩ := leads
  rw [grows.workingDirectory]
  exact ⟨walkable, route.mono grows⟩

theorem target?_of_resolve_create {loc : Location}
    (found : fs.resolve .create p = .ok (.found loc)) : fs.target? p = some loc := by
  rw [target?_eq_some_iff, resolve_eq_ok_iff]
  obtain ⟨walkable, route⟩ := resolve_eq_ok_iff.mp found
  exact ⟨walkable, route.look_of_create⟩

theorem vacant_of_resolve_free {dir : Location} {name : Name}
    (free : fs.resolve intent p = .ok (.free dir name)) :
    fs.get? dir = some .directory ∧ fs.get? (name :: dir) = none := by
  obtain ⟨-, route⟩ := resolve_eq_ok_iff.mp free
  exact route.vacant

theorem target?_of_resolve_free {dir : Location} {name : Name} {entry : Entry}
    (free : before.resolve intent p = .ok (.free dir name))
    (sets : before.Sets (name :: dir) entry after) (noLink : ∀ target, entry ≠ .link target)
    (suits : intent = .create ∨ entry = .directory) : after.target? p = some (name :: dir) := by
  rw [target?_eq_some_iff, resolve_eq_ok_iff]
  obtain ⟨walkable, route⟩ := resolve_eq_ok_iff.mp free
  have grows := sets.grows_of_free (vacant_of_resolve_free free).2
  rw [grows.workingDirectory]
  exact ⟨walkable, route.settle grows sets.here noLink (by simp) (by simpa using suits)⟩

theorem resolve_create_of_target? {loc : Location} (leads : fs.target? p = some loc)
    (noDirectory : fs.get? loc ≠ some .directory) : fs.resolve .create p = .ok (.found loc) := by
  obtain ⟨walkable, route⟩ := resolve_eq_ok_iff.mp (target?_eq_some_iff.mp leads)
  exact resolve_eq_ok_iff.mpr ⟨walkable, route.create_of_look noDirectory⟩

theorem entryAt?_eq_some_iff {entry : Entry} :
    fs.entryAt? p = some entry ↔ ∃ loc, fs.target? p = some loc ∧ fs.get? loc = some entry := by
  rw [entryAt?, Option.bind_eq_some_iff]

theorem contents?_eq_some_iff {content : Bytes} :
    fs.contents? p = some content ↔ fs.entryAt? p = some (.file content) := by
  rw [contents?, Option.bind_eq_some_iff]
  constructor
  · rintro ⟨entry, present, isFile⟩
    cases entry with
    | file data =>
      cases isFile
      exact present
    | directory | link | device => cases isFile
  · exact fun present => ⟨_, present, rfl⟩

/-! ## Making a directory -/

theorem makeDirectory_eq_ok (made : before.makeDirectory p = .ok after) :
    ∃ loc, before.get? loc = none ∧ before.Sets loc .directory after ∧
      after.target? p = some loc := by
  rw [makeDirectory, place] at made
  split at made
  next => cases made
  next => cases made
  next dir name free =>
    cases made
    obtain ⟨isDirectory, vacant⟩ := vacant_of_resolve_free free
    have sets := sets_add isDirectory vacant .directory
    exact ⟨name :: dir, vacant, sets,
      target?_of_resolve_free free sets (fun _ => Entry.noConfusion) (.inr rfl)⟩

theorem makeDirectory_of_target? {loc : Location} (leads : fs.target? p = some loc) :
    fs.makeDirectory p = .error (.system .alreadyExists) := by
  obtain ⟨walkable, route⟩ := resolve_eq_ok_iff.mp (target?_eq_some_iff.mp leads)
  obtain ⟨other, taken⟩ := route.bind_of_look
  have found : fs.resolve .bind p = .ok (.found other) := resolve_eq_ok_iff.mpr ⟨walkable, taken⟩
  rw [makeDirectory, place, found]

theorem isDirectory_iff : fs.isDirectory p ↔ fs.entryAt? p = some .directory := by
  rw [isDirectory, decide_eq_true_iff]

theorem isDirectory_of_grows (grows : before.Grows after) (isDirectory : before.isDirectory p) :
    after.isDirectory p := by
  rw [isDirectory_iff, entryAt?_eq_some_iff] at isDirectory ⊢
  obtain ⟨loc, leads, present⟩ := isDirectory
  exact ⟨loc, target?_of_grows grows leads, grows.directory present⟩

/-! ## Writing a file -/

/-- What a successful write does.  Either the path leads to a device and nothing changes, or the
content stands in a file to which the path leads, and no other entry is another. -/
theorem write_eq_ok {content : Bytes} (written : before.write p content = .ok after) :
    (after = before ∧ ∃ device, before.entryAt? p = some (.device device)) ∨
      ∃ loc, before.Sets loc (.file content) after ∧ after.target? p = some loc ∧
        ∀ old, before.get? loc = some old → old.SameKind (.file content) := by
  rw [write] at written
  split at written
  next => cases written
  next dir name free =>
    -- The file is created at a free name.
    cases written
    obtain ⟨isDirectory, vacant⟩ := vacant_of_resolve_free free
    have sets := sets_add isDirectory vacant (.file content)
    refine .inr ⟨name :: dir, sets,
      target?_of_resolve_free free sets (fun _ => Entry.noConfusion) (.inl rfl), ?_⟩
    exact fun old present => by simp [vacant] at present
  next loc found =>
    have leads := target?_of_resolve_create found
    split at written
    next old isFile =>
      -- The file is there already.
      cases written
      have sets := sets_overwrite isFile content
      have kind : ∀ other, before.get? loc = some other → other.SameKind (.file content) := by
        intro other present
        cases isFile.symm.trans present
        exact .file old content
      exact .inr ⟨loc, sets, target?_of_grows (sets.grows kind) leads, kind⟩
    next device isDevice =>
      split at written
      next => cases written
      next =>
        -- The device takes the bytes and nothing is stored.
        cases written
        exact .inl ⟨rfl, device, entryAt?_eq_some_iff.mpr ⟨loc, leads, isDevice⟩⟩
    next => cases written

theorem grows_of_write {content : Bytes} (written : before.write p content = .ok after) :
    before.Grows after := by
  rcases write_eq_ok written with ⟨rfl, -⟩ | ⟨loc, sets, -, kind⟩
  · exact .refl after
  · exact sets.grows kind

theorem write_of_contents? {old : Bytes} (present : fs.contents? p = some old) (content : Bytes) :
    ∃ loc, fs.target? p = some loc ∧ fs.get? loc = some (.file old) ∧
      fs.write p content = .ok (fs.overwrite loc content) := by
  obtain ⟨loc, leads, isFile⟩ := entryAt?_eq_some_iff.mp (contents?_eq_some_iff.mp present)
  have found := resolve_create_of_target? leads (by simp [isFile])
  refine ⟨loc, leads, isFile, ?_⟩
  rw [write, found]
  simp only [isFile]

theorem write_same {content : Bytes} (present : fs.contents? p = some content) :
    fs.write p content = .ok fs := by
  obtain ⟨loc, -, isFile, written⟩ := write_of_contents? present content
  have sets := sets_overwrite isFile content
  have same : fs.overwrite loc content = fs := by
    refine FileSystem.ext sets.workingDirectory fun other => ?_
    by_cases here : loc = other
    · rw [← here, sets.here, isFile]
    · exact sets.elsewhere here
  rw [written, same]

/-! ## Writing twice -/

theorem exists_sets_of_write {content : Bytes} (written : before.write p content = .ok after) :
    after = before ∨
      ∃ loc, after.target? p = some loc ∧
        ∀ more, ∃ stored, before.write p more = .ok stored ∧
          before.Sets loc (.file more) stored := by
  rw [write] at written
  split at written
  next => cases written
  next dir name free =>
    cases written
    obtain ⟨isDirectory, vacant⟩ := vacant_of_resolve_free free
    have leads := target?_of_resolve_free free (sets_add isDirectory vacant (.file content))
      (fun _ => Entry.noConfusion) (.inl rfl)
    refine .inr ⟨name :: dir, leads, fun more =>
      ⟨before.add dir name (.file more), ?_, sets_add isDirectory vacant (.file more)⟩⟩
    rw [write, free]
  next loc found =>
    split at written
    next old isFile =>
      cases written
      have grows := (sets_overwrite isFile content).grows_of_file isFile
      have leads := target?_of_grows grows (target?_of_resolve_create found)
      refine .inr ⟨loc, leads, fun more =>
        ⟨before.overwrite loc more, ?_, sets_overwrite isFile more⟩⟩
      rw [write, found]
      simp only [isFile]
    next device isDevice =>
      split at written
      next => cases written
      next =>
        cases written
        exact .inl rfl
    next => cases written

theorem write_write {content : Bytes} (written : before.write p content = .ok after)
    (more : Bytes) : after.write p more = before.write p more := by
  rcases exists_sets_of_write written with rfl | ⟨loc, leads, stores⟩
  · rfl
  · obtain ⟨stored, writtenToo, sets⟩ := stores content
    cases written.symm.trans writtenToo
    obtain ⟨direct, writtenDirect, setsDirect⟩ := stores more
    have present : after.contents? p = some content :=
      contents?_eq_some_iff.mpr (entryAt?_eq_some_iff.mpr ⟨loc, leads, sets.here⟩)
    obtain ⟨same, leadsSame, isFile, writtenAgain⟩ := write_of_contents? present more
    cases leads.symm.trans leadsSame
    rw [writtenAgain, writtenDirect, (sets.trans (sets_overwrite isFile more)).unique setsDirect]

end ElfCarve.FileSystem
