import ElfCarve.Proofs.FileSystem.Access
import ElfCarve.Proofs.FileSystem.Overlay
import ElfCarve.Proofs.Path.Plain

/-!
# Walks along names

In a file system without links a plain path is walked from directory to directory, and nothing but
what stands on the way decides how the walk ends.

* `descend` goes through the directories and `arrive` looks at the last name; `resolve_names` says
  that a walk is just that, errors included and whatever it is for.
* `target?_eq_some_iff_of_isPlain` says where a plain path leads.
-/

namespace ElfCarve

/-- Whether a component is a name, be it too long or not. -/
def Component.IsName : Component → Prop
  | .child _ | .overlong => True
  | _ => False

theorem Component.isName_ofSegment {segment : Bytes} (ordinary : Path.IsOrdinary segment) :
    (Component.ofSegment segment).IsName := by
  obtain ⟨filled, noDot, noDots⟩ := ordinary
  rw [Component.ofSegment, if_neg filled, if_neg noDot, if_neg noDots]
  split <;> trivial

theorem Component.ofSegment_eq_child_iff {segment : Bytes} {name : Name} :
    Component.ofSegment segment = .child name ↔ segment = name.bytes := by
  constructor
  · intro isChild
    unfold Component.ofSegment at isChild
    split at isChild
    next => cases isChild
    next =>
      split at isChild
      next => cases isChild
      next =>
        split at isChild
        next => cases isChild
        next =>
          split at isChild
          next valid =>
            cases isChild
            rfl
          next => cases isChild
  · rintro rfl
    obtain ⟨bytes, valid⟩ := name
    obtain ⟨filled, noDot, noDots, -⟩ := id valid
    rw [Component.ofSegment, if_neg filled, if_neg noDot, if_neg noDots, dif_pos valid]

theorem Component.map_ofSegment_eq_map_child_iff {segments : List Bytes} {names : List Name} :
    segments.map Component.ofSegment = names.map .child ↔ segments = names.map Name.bytes := by
  induction segments generalizing names with
  | nil => cases names <;> simp
  | cons segment segments ih =>
    cases names with
    | nil => simp
    | cons name names => simp [ih, Component.ofSegment_eq_child_iff]

theorem not_isLast_append {front back : List Component} (further : ¬ IsLast back) :
    ¬ IsLast (front ++ back) := by
  intro last
  rw [IsLast, List.all_append, Bool.and_eq_true] at last
  exact further last.2

theorem not_isLast_of_isName {front : List Component} {last : Component} (isName : last.IsName) :
    ¬ IsLast (front ++ [last]) := by
  refine not_isLast_append fun blank => ?_
  have lastBlank : last = .blank := by simpa [IsLast] using blank
  rw [lastBlank] at isName
  exact isName

def Path.fault? (p : Path) : Option Cause :=
  if 0 ∈ p.bytes then some .zeroByte
  else if FileSystem.pathLimit ≤ p.bytes.length then some (.system .nameTooLong)
  else none

namespace FileSystem

variable {fs : FileSystem} {intent : Intent} {links : Nat} {here dir loc : Location}
  {front : List Component} {last : Component} {p : Path} {segments : List Bytes} {segment : Bytes}

/-- Goes through components from a directory, each of which must name a directory. -/
def descend (fs : FileSystem) : Location → List Component → Except Errno Location
  | here, [] => .ok here
  | here, .child name :: rest =>
    match fs.get? (name :: here) with
    | none => .error .noEntry
    | some .directory => fs.descend (name :: here) rest
    | some _ => .error .notDirectory
  | _, _ :: _ => .error .nameTooLong

def arrive (fs : FileSystem) (dir : Location) : Component → Except Errno Landing
  | .child name =>
    match fs.get? (name :: dir) with
    | none => .ok (.free dir name)
    | some _ => .ok (.found (name :: dir))
  | _ => .error .nameTooLong

/-! ## Walking -/

theorem walk_name (linkFree : fs.LinkFree) (isDirectory : fs.get? here = some .directory)
    (isName : last.IsName) : fs.walk intent links here [last] = fs.arrive here last := by
  have allowed : ¬ intent.Refuses [] := fun refuses => refuses.2.2 rfl
  rw [walk_eq_walkWith]
  cases last with
  | blank | stay | up => cases isName
  | overlong =>
    rw [walkWith_overlong isDirectory, if_neg allowed]
    rfl
  | child name =>
    rw [walkWith_child isDirectory, if_neg allowed, arrive]
    cases present : fs.get? (name :: here) with
    | none => rfl
    | some entry =>
      cases entry with
      | link target => exact absurd present (linkFree _ target)
      | directory | file | device => simp only [walkWith_nil, ite_self]

theorem walk_concat (linkFree : fs.LinkFree) (isDirectory : fs.get? here = some .directory)
    (names : ∀ component ∈ front, component.IsName) (isName : last.IsName) :
    fs.walk intent links here (front ++ [last]) =
      (fs.descend here front).bind fun dir => fs.arrive dir last := by
  induction front generalizing here with
  | nil => exact walk_name linkFree isDirectory isName
  | cons component rest ih =>
    have further : ¬ IsLast (rest ++ [last]) := not_isLast_of_isName isName
    have allowed : ¬ intent.Refuses (rest ++ [last]) := fun refuses => further refuses.2.1
    have passes : ¬ intent.Takes (rest ++ [last]) := fun takes => further takes.2
    have isNameHere := names component List.mem_cons_self
    rw [List.cons_append, walk_eq_walkWith]
    cases component with
    | blank | stay | up => cases isNameHere
    | overlong =>
      rw [walkWith_overlong isDirectory, if_neg allowed]
      rfl
    | child name =>
      rw [walkWith_child isDirectory, if_neg allowed, descend]
      cases present : fs.get? (name :: here) with
      | none => exact if_neg further
      | some entry =>
        cases entry with
        | link target => exact absurd present (linkFree _ target)
        | directory =>
          simp only [if_neg passes]
          rw [← walk_eq_walkWith]
          exact ih present fun component member => names component (List.mem_cons_of_mem _ member)
        | file | device =>
          -- The next component asks to go on from what is no directory.
          obtain ⟨next, others, shape⟩ : ∃ next others, rest ++ [last] = next :: others := by
            cases rest <;> simp
          have noDirectory : fs.get? (name :: here) ≠ some .directory := by simp [present]
          rw [shape] at passes ⊢
          simp only [if_neg passes]
          rw [walkWith_of_not_directory noDirectory]
          rfl

/-! ## Resolving -/

theorem walkable_iff : Walkable p ↔ p.bytes ≠ [] ∧ p.fault? = none := by
  unfold Walkable Path.fault?
  by_cases zero : 0 ∈ p.bytes
  · simp [zero]
  · by_cases long : pathLimit ≤ p.bytes.length
    · simp [zero, long]
    · simp [zero, long, Nat.lt_of_not_le long]

theorem fault?_ne_noEntry : p.fault? ≠ some (.system .noEntry) := by
  unfold Path.fault?
  split
  · simp
  · split <;> simp [Errno.nameTooLong, Errno.noEntry]

theorem resolve_of_fault {cause : Cause} (filled : p.bytes ≠ []) (fault : p.fault? = some cause) :
    fs.resolve intent p = .error cause := by
  unfold Path.fault? at fault
  by_cases zero : 0 ∈ p.bytes
  · rw [if_pos zero] at fault
    cases fault
    rw [resolve, if_pos zero]
  · rw [if_neg zero] at fault
    split at fault
    next long =>
      cases fault
      rw [resolve, if_neg zero, if_neg filled, if_pos long]
    next => cases fault

/-- A plain path is resolved by going down to its last name and looking there. -/
theorem resolve_names (intent : Intent) (linkFree : fs.LinkFree)
    (names : Path.AreNames (segments ++ [segment]))
    (walkable : Walkable (.ofSegments (segments ++ [segment]))) :
    fs.resolve intent (.ofSegments (segments ++ [segment])) =
      ((fs.descend fs.workingDirectory (segments.map Component.ofSegment)).bind
        fun dir => fs.arrive dir (Component.ofSegment segment)).mapError .system := by
  have isName (member : Bytes) (among : member ∈ segments ++ [segment]) :
      (Component.ofSegment member).IsName := Component.isName_ofSegment (names member among).1
  have frontNames : ∀ component ∈ segments.map Component.ofSegment, component.IsName := by
    intro component member
    obtain ⟨source, among, rfl⟩ := List.mem_map.mp member
    exact isName source (List.mem_append_left _ among)
  have start : base fs.workingDirectory (.ofSegments (segments ++ [segment])) =
      fs.workingDirectory := by
    rw [base, Path.not_isAbsolute_of_areNames names, if_neg Bool.false_ne_true]
  obtain ⟨noZero, filled, short⟩ := walkable
  rw [resolve, if_neg noZero, if_neg filled, if_neg (Nat.not_le_of_lt short), start,
    Path.components, Path.segments_ofSegments names (by simp), List.map_append]
  congr 1
  exact walk_concat linkFree fs.get?_workingDirectory frontNames (isName segment (by simp))

/-! ## Where a plain path leads -/

theorem directory_of_append {below : List Name}
    (isDirectory : fs.get? (below ++ loc) = some .directory) : fs.get? loc = some .directory := by
  induction below with
  | nil => exact isDirectory
  | cons name below ih => exact ih (fs.get?_parent isDirectory)

theorem descend_eq_ok_iff (isDirectory : fs.get? here = some .directory) :
    fs.descend here front = .ok dir ↔
      fs.get? dir = some .directory ∧
        ∃ names : List Name, front = names.map .child ∧ dir = names.reverse ++ here := by
  constructor
  · intro descended
    induction front generalizing here with
    | nil =>
      cases descended
      exact ⟨isDirectory, [], rfl, rfl⟩
    | cons component rest ih =>
      cases component with
      | blank | stay | up | overlong => cases descended
      | child name =>
        rw [descend] at descended
        split at descended
        next => cases descended
        next present =>
          obtain ⟨dirIsDirectory, names, rfl, rfl⟩ := ih present descended
          exact ⟨dirIsDirectory, name :: names, rfl, by simp⟩
        next => cases descended
  · rintro ⟨dirIsDirectory, names, rfl, rfl⟩
    induction names generalizing here with
    | nil => rfl
    | cons name names ih =>
      -- The last one is a directory, and so is all above it.
      rw [List.reverse_cons, List.append_assoc, List.singleton_append] at dirIsDirectory ⊢
      have present := directory_of_append dirIsDirectory
      rw [List.map_cons, descend, present]
      exact ih present dirIsDirectory

theorem arrive_eq_found_iff :
    fs.arrive dir last = .ok (.found loc) ↔
      ∃ name, last = .child name ∧ loc = name :: dir ∧ fs.get? loc ≠ none := by
  constructor
  · intro arrived
    cases last with
    | blank | stay | up | overlong => cases arrived
    | child name =>
      rw [arrive] at arrived
      split at arrived
      next => cases arrived
      next present =>
        cases arrived
        exact ⟨name, rfl, rfl, by simp [present]⟩
  · rintro ⟨name, rfl, rfl, present⟩
    obtain ⟨entry, present⟩ := Option.ne_none_iff_exists'.mp present
    rw [arrive, present]

end FileSystem

/-- Whether a path names a location from a directory, with a name for each of its segments. -/
def Path.Names (p : Path) (dir loc : Location) : Prop :=
  ∃ names : List Name, p.segments = names.map Name.bytes ∧ loc = names.reverse ++ dir

def Path.Passes (p : Path) (dir loc : Location) : Prop :=
  ∃ names : List Name, names.map Name.bytes <+: p.segments ∧ loc = names.reverse ++ dir

theorem Path.Passes.prefix_of_names {p q : Path} {dir loc : Location} (passes : p.Passes dir loc)
    (named : q.Names dir loc) : q.segments <+: p.segments := by
  obtain ⟨names, isPrefix, rfl⟩ := passes
  obtain ⟨others, segments, same⟩ := named
  have equal : names = others := List.reverse_injective (List.append_cancel_right same)
  rw [segments, ← equal]
  exact isPrefix

theorem Path.Names.eq {p q : Path} {dir loc : Location} (named : p.Names dir loc)
    (alsoNamed : q.Names dir loc) : p = q := by
  obtain ⟨names, segments, rfl⟩ := named
  obtain ⟨others, otherSegments, same⟩ := alsoNamed
  have equal : names = others := List.reverse_injective (List.append_cancel_right same)
  rw [← p.ofSegments_segments, ← q.ofSegments_segments, segments, otherSegments, equal]

theorem Path.passes_of_prefix {front : List Bytes} {last : Bytes} {dir : Location}
    {children : List Name} (names : AreNames (front ++ [last]))
    (isPrefix : children.map .child <+: front.map Component.ofSegment) :
    (ofSegments (front ++ [last])).Passes dir (children.reverse ++ dir) := by
  refine ⟨children, ?_, rfl⟩
  rw [List.prefix_iff_eq_take, ← List.map_take, eq_comm,
    Component.map_ofSegment_eq_map_child_iff] at isPrefix
  rw [segments_ofSegments names (by simp), ← isPrefix]
  exact (List.take_prefix _ front).trans (List.prefix_append front [last])

theorem Path.names_concat {front : List Bytes} {last : Bytes} {dir : Location}
    {children : List Name} {child : Name} (names : AreNames (front ++ [last]))
    (areChildren : front.map Component.ofSegment = children.map .child)
    (isChild : Component.ofSegment last = .child child) :
    (ofSegments (front ++ [last])).Names dir (child :: (children.reverse ++ dir)) := by
  refine ⟨children ++ [child], ?_, by simp⟩
  rw [segments_ofSegments names (by simp),
    Component.map_ofSegment_eq_map_child_iff.mp areChildren,
    Component.ofSegment_eq_child_iff.mp isChild, List.map_append, List.map_singleton]

theorem Path.Names.passes {p : Path} {dir loc : Location} (named : p.Names dir loc) :
    p.Passes dir loc := by
  obtain ⟨names, segments, rfl⟩ := named
  exact ⟨names, segments ▸ List.prefix_rfl, rfl⟩

namespace FileSystem

variable {fs : FileSystem} {p : Path} {loc : Location}

theorem mapError_bind_eq_ok_iff {α β ε δ : Type} {wrap : ε → δ} {first : Except ε α}
    {next : α → Except ε β} {result : β} :
    (first.bind next).mapError wrap = .ok result ↔
      ∃ middle, first = .ok middle ∧ next middle = .ok result := by
  cases first with
  | error => simp [Except.bind, Except.mapError]
  | ok middle => cases second : next middle <;> simp [Except.bind, Except.mapError, second]

/-- In a file system without links a plain path leads to the location that it names, if anything
stands there. -/
theorem target?_eq_some_iff_of_isPlain (linkFree : fs.LinkFree) (plain : p.IsPlain) :
    fs.target? p = some loc ↔
      Walkable p ∧ p.Names fs.workingDirectory loc ∧ fs.get? loc ≠ none := by
  obtain ⟨front, last, areNames, segments, path⟩ := plain.exists_concat
  rw [target?_eq_some_iff]
  constructor
  · intro found
    have walkable := (resolve_eq_ok_iff.mp found).1
    rw [path] at walkable found
    rw [resolve_names _ linkFree areNames walkable, mapError_bind_eq_ok_iff] at found
    obtain ⟨dir, descended, arrived⟩ := found
    obtain ⟨name, isChild, rfl, present⟩ := arrive_eq_found_iff.mp arrived
    obtain ⟨-, names, frontNames, rfl⟩ := (descend_eq_ok_iff fs.get?_workingDirectory).mp descended
    exact ⟨path ▸ walkable, path ▸ Path.names_concat areNames frontNames isChild, present⟩
  · rintro ⟨walkable, ⟨names, segments_eq, rfl⟩, present⟩
    rw [segments] at segments_eq
    -- The last of the names belongs to the last segment.
    obtain ⟨above, name, rfl⟩ : ∃ above name, names = above ++ [name] := by
      rcases List.eq_nil_or_concat' names with rfl | ends
      · simp at segments_eq
      · exact ends
    rw [List.map_append, List.map_singleton] at segments_eq
    obtain ⟨frontNames, lastName⟩ := List.append_inj' segments_eq rfl
    rw [List.singleton_inj] at lastName
    rw [List.reverse_append, List.reverse_singleton, List.singleton_append] at present ⊢
    obtain ⟨entry, standing⟩ := Option.ne_none_iff_exists'.mp present
    rw [path] at walkable ⊢
    rw [resolve_names _ linkFree areNames walkable, mapError_bind_eq_ok_iff]
    refine ⟨above.reverse ++ fs.workingDirectory, ?_, ?_⟩
    · rw [descend_eq_ok_iff fs.get?_workingDirectory]
      exact ⟨fs.get?_parent standing, above,
        Component.map_ofSegment_eq_map_child_iff.mpr frontNames, rfl⟩
    · rw [arrive_eq_found_iff]
      exact ⟨name, Component.ofSegment_eq_child_iff.mpr lastName, rfl, present⟩

theorem contents?_eq_some_iff_of_isPlain (linkFree : fs.LinkFree) (plain : p.IsPlain)
    {content : Bytes} :
    fs.contents? p = some content ↔
      Walkable p ∧
        ∃ loc, p.Names fs.workingDirectory loc ∧ fs.get? loc = some (.file content) := by
  rw [contents?_eq_some_iff, entryAt?_eq_some_iff]
  simp only [target?_eq_some_iff_of_isPlain linkFree plain]
  constructor
  · rintro ⟨loc, ⟨walkable, named, -⟩, isFile⟩
    exact ⟨walkable, loc, named, isFile⟩
  · rintro ⟨walkable, loc, named, isFile⟩
    exact ⟨loc, ⟨walkable, named, by simp [isFile]⟩, isFile⟩

end FileSystem

end ElfCarve
