import ElfCarve.Proofs.FileSystem.Descent
import ElfCarve.Proofs.Path.Parent

/-!
# The directory of a path

The parent of a path is found in its text, while a walk goes through links and dots and knows
nothing of parents.  The two agree all the same: a route can be cut behind any of its components,
and where the components of the parent lead, there the last name is looked for.

* `Route.cut` and `Route.append` take routes apart and join them.
* `directoryOf?` is where the parent of a path leads.
* `directoryOf?_of_target?`: what a path leads to has a directory by its text.
* `resolve_of_directoryOf?`: a path with a last name arrives in the directory that it has by its
  text.
-/

namespace ElfCarve

theorem Name.isOrdinary (name : Name) : Path.IsOrdinary name.bytes :=
  ⟨name.valid.1, name.valid.2.1, name.valid.2.2.1⟩

theorem Name.areNames_singleton (name : Name) : Path.AreNames [name.bytes] := by
  intro segment member
  cases List.mem_singleton.mp member
  exact ⟨name.isOrdinary, name.valid.2.2.2.1⟩

def Component.IsIdle (component : Component) : Prop :=
  component = .blank ∨ component = .stay

theorem Component.isIdle_ofSegment {segment : Bytes} (idle : Path.isIdle segment) :
    (Component.ofSegment segment).IsIdle := by
  simp only [Path.isIdle, Bool.or_eq_true, decide_eq_true_eq] at idle
  rcases idle with rfl | rfl
  · exact .inl rfl
  · exact .inr rfl

theorem isIdle_of_mem_map {segments : List Bytes}
    (idle : ∀ segment ∈ segments, Path.isIdle segment) :
    ∀ component ∈ segments.map Component.ofSegment, component.IsIdle := by
  intro component member
  obtain ⟨segment, among, rfl⟩ := List.mem_map.mp member
  exact Component.isIdle_ofSegment (idle segment among)

theorem isLast_map_of_eq_nil {segments : List Bytes} (blank : ∀ segment ∈ segments, segment = []) :
    IsLast (segments.map Component.ofSegment) := by
  refine List.all_eq_true.mpr fun component member => ?_
  obtain ⟨segment, among, rfl⟩ := List.mem_map.mp member
  rw [blank segment among]
  rfl

namespace FileSystem

variable {fs : FileSystem} {intent goal : Intent} {links : Nat} {here middle loc dir : Location}
  {components front back : List Component} {landing : Landing} {p q : Path} {name : Name}

/-! ## Routes in two parts -/

namespace Route

theorem directory_of_ne_nil (route : fs.Route intent links here components landing)
    (more : components ≠ []) : fs.get? here = some .directory := by
  cases route with
  | arrive => exact absurd rfl more
  | stay isDirectory | up isDirectory | free isDirectory | taken isDirectory
  | enter isDirectory | follow isDirectory => exact isDirectory

theorem cut {links : Nat} {here : Location} {front : List Component}
    (route : fs.Route .look links here (front ++ back) (.found loc)) :
    ∃ middle remaining, fs.Route .look links here front (.found middle) ∧
      fs.Route .look remaining middle back (.found loc) := by
  match front, route with
  | [], route => exact ⟨here, links, .arrive, route⟩
  | component :: front, route =>
    rw [List.cons_append] at route
    cases route with
    | stay isDirectory idle onward =>
      obtain ⟨middle, remaining, first, second⟩ := onward.cut
      exact ⟨middle, remaining, .stay isDirectory idle first, second⟩
    | up isDirectory onward =>
      obtain ⟨middle, remaining, first, second⟩ := onward.cut
      exact ⟨middle, remaining, .up isDirectory first, second⟩
    | taken _ takes => exact absurd takes Intent.not_takes_look
    | enter isDirectory _ _ present noLink onward =>
      obtain ⟨middle, remaining, first, second⟩ := onward.cut
      exact ⟨middle, remaining, .enter isDirectory Intent.not_refuses_look Intent.not_takes_look
        present noLink first, second⟩
    | follow isDirectory _ _ present someTarget onward =>
      -- The components of the target belong to the first part.
      rw [← List.append_assoc] at onward
      obtain ⟨middle, remaining, first, second⟩ := onward.cut
      exact ⟨middle, remaining, .follow isDirectory Intent.not_refuses_look Intent.not_takes_look
        present someTarget first, second⟩
termination_by (links, front.length)

/-- A route goes on behind another one, provided that it can do so however few links are left. -/
theorem append (route : fs.Route .look links here front (.found middle))
    (onward : ∀ remaining, fs.Route goal remaining middle back landing)
    (further : goal = .look ∨ ¬ IsLast back) :
    fs.Route goal links here (front ++ back) landing := by
  -- None of the first components is the last of all, so what the walk is for does not matter there.
  have allowed (rest : List Component) : ¬ goal.Refuses (rest ++ back) := by
    rintro ⟨rfl, last, -⟩
    exact not_isLast_append (further.resolve_left (by simp)) last
  have passes (rest : List Component) : ¬ goal.Takes (rest ++ back) := by
    rintro ⟨rfl, last⟩
    exact not_isLast_append (further.resolve_left (by simp)) last
  generalize arrival : Landing.found middle = halfway at route
  induction route with
  | arrive =>
    cases arrival
    exact onward _
  | stay isDirectory idle _ ih => exact .stay isDirectory idle (ih arrival)
  | up isDirectory _ ih => exact .up isDirectory (ih arrival)
  | free => cases arrival
  | taken _ takes => exact absurd takes Intent.not_takes_look
  | enter isDirectory _ _ present noLink _ ih =>
    exact .enter isDirectory (allowed _) (passes _) present noLink (ih arrival)
  | follow isDirectory _ _ present someTarget _ ih =>
    have onwardBehind := ih arrival
    rw [List.append_assoc] at onwardBehind
    exact .follow isDirectory (allowed _) (passes _) present someTarget onwardBehind

theorem eq_of_idle (route : fs.Route .look links here components (.found loc))
    (idle : ∀ component ∈ components, component.IsIdle) : loc = here := by
  induction components with
  | nil =>
    cases route
    rfl
  | cons component rest ih =>
    obtain ⟨idleHere, idleRest⟩ := List.forall_mem_cons.mp idle
    cases route with
    | stay _ _ onward => exact ih onward idleRest
    | up | enter | follow => rcases idleHere with impossible | impossible <;> cases impossible
    | taken _ takes => exact absurd takes Intent.not_takes_look

theorem idle_append (isDirectory : fs.get? here = some .directory)
    (idle : ∀ component ∈ front, component.IsIdle)
    (onward : fs.Route intent links here back landing) :
    fs.Route intent links here (front ++ back) landing := by
  induction front with
  | nil => exact onward
  | cons component rest ih =>
    obtain ⟨idleHere, idleRest⟩ := List.forall_mem_cons.mp idle
    exact .stay isDirectory idleHere (ih idleRest)

end Route

/-! ## Where the parent of a path leads -/

/-- The directory of a path by its text: where its parent leads, or the working directory if the
path is a single name. -/
def directoryOf? (fs : FileSystem) (p : Path) : Option Location :=
  match p.parent? with
  | none => none
  | some parent => if parent.bytes = [] then some fs.workingDirectory else fs.target? parent

theorem directoryOf?_of_empty (lies : p.parent? = some q) (empty : q.bytes = []) :
    fs.directoryOf? p = some fs.workingDirectory := by
  rw [directoryOf?, lies]
  exact if_pos empty

theorem directoryOf?_of_filled (lies : p.parent? = some q) (filled : q.bytes ≠ []) :
    fs.directoryOf? p = fs.target? q := by
  rw [directoryOf?, lies]
  exact if_neg filled

theorem base_of_prefix (isPrefix : q.bytes <+: p.bytes) (filled : q.bytes ≠ []) :
    base here q = base here p := by
  rw [base, base, Path.isAbsolute_of_prefix isPrefix filled]

/-- What a path leads to, if it is no directory itself, lies in the directory of the path. -/
theorem directoryOf?_of_target? (leads : fs.target? p = some loc)
    (noDirectory : fs.get? loc ≠ some .directory) :
    ∃ dir, fs.directoryOf? p = some dir ∧ fs.get? dir = some .directory := by
  obtain ⟨walkable, route⟩ := resolve_eq_ok_iff.mp (target?_eq_some_iff.mp leads)
  obtain ⟨front, last, segments⟩ :=
    List.eq_nil_or_concat' p.segments |>.resolve_left (List.splitOn_ne_nil _ _)
  -- Behind an idle segment the walk would end in a directory.
  have lasting : Path.isIdle last = false := by
    by_contra idle
    have idle : (Component.ofSegment last).IsIdle :=
      Component.isIdle_ofSegment (by simpa using idle)
    rw [Path.components, segments, List.map_append, List.map_singleton] at route
    obtain ⟨middle, remaining, -, final⟩ := route.cut
    have stays := final.eq_of_idle (by simpa using idle)
    rw [stays] at noDirectory
    exact noDirectory (final.directory_of_ne_nil (List.cons_ne_nil _ _))
  cases Path.divides segments lasting with
  | alone _ lies =>
    exact ⟨fs.workingDirectory, directoryOf?_of_empty lies rfl, fs.get?_workingDirectory⟩
  | @within parent front between blanks lies filled segments idle parentSegments blank =>
    rw [Path.components, segments, List.map_append, List.map_append] at route
    obtain ⟨dir, remaining, toDirectory, final⟩ := route.cut
    have isDirectory := final.directory_of_ne_nil (by simp)
    have isPrefix := Path.prefix_of_parent? lies
    refine ⟨dir, ?_, isDirectory⟩
    rw [directoryOf?_of_filled lies filled, target?_eq_some_iff, resolve_eq_ok_iff,
      base_of_prefix isPrefix filled, Path.components, parentSegments, List.map_append]
    refine ⟨walkable.of_prefix isPrefix filled, toDirectory.append (fun _ => ?_) (.inl rfl)⟩
    exact .of_isLast isDirectory (isLast_map_of_eq_nil blank)

/-- A walk to a path with a last name looks for the name in the directory of the path. -/
theorem resolve_of_directoryOf? (walkable : Walkable p)
    (ends : p.segments.getLast? = some name.bytes) (leads : fs.directoryOf? p = some dir)
    (isDirectory : fs.get? dir = some .directory)
    (arrives : ∀ links, fs.Route intent links dir [.child name] landing) :
    fs.resolve intent p = .ok landing := by
  refine resolve_eq_ok_iff.mpr ⟨walkable, ?_⟩
  have component : Component.ofSegment name.bytes = .child name :=
    Component.ofSegment_eq_child_iff.mpr rfl
  obtain ⟨front, segments⟩ := List.getLast?_eq_some_iff.mp ends
  cases Path.divides segments name.isOrdinary.not_isIdle with
  | alone segments lies =>
    have relative : p.isAbsolute = false := by
      rw [← p.ofSegments_segments, segments]
      exact Path.not_isAbsolute_of_areNames name.areNames_singleton
    rw [directoryOf?_of_empty lies rfl] at leads
    cases leads
    rw [base, relative, if_neg Bool.false_ne_true, Path.components, segments, List.map_singleton,
      component]
    exact arrives _
  | @within parent front between blanks lies filled segments idle parentSegments blank =>
    have isPrefix := Path.prefix_of_parent? lies
    rw [directoryOf?_of_filled lies filled, target?_eq_some_iff, resolve_eq_ok_iff,
      base_of_prefix isPrefix filled, Path.components, parentSegments, List.map_append] at leads
    obtain ⟨middle, remaining, toDirectory, blankRoute⟩ := leads.2.cut
    have blankIdle : ∀ segment ∈ blanks, Path.isIdle segment := by
      intro segment member
      rw [blank segment member]
      rfl
    have stays : dir = middle := blankRoute.eq_of_idle (isIdle_of_mem_map blankIdle)
    subst stays
    rw [Path.components, segments, List.map_append, List.map_append, List.map_singleton, component]
    refine toDirectory.append (fun links => ?_) (.inr ?_)
    · exact .idle_append isDirectory (isIdle_of_mem_map idle) (arrives links)
    · exact not_isLast_of_isName (by trivial)

end FileSystem

end ElfCarve
