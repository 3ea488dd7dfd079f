import ElfCarve.FileSystem.Walk
import ElfCarve.Proofs.FileSystem.Growth

/-!
# Routes

A route is a walk that succeeds, told step by step.  `Route` is the relation of what the function
`walk` computes, and `walk_eq_ok_iff` is the bridge between the two; everything else about walks
that succeed is then an induction over routes.

* `Route.mono`: growth leaves every route to an entry as it is.
* `Route.look_of_create` and `Route.create_of_look`: where a file is opened for writing, there it is
  found, and the other way round.
* `Route.bind_of_look`: a name that leads to something is taken.
* `Route.settle`: a route to a free name becomes a route to the entry that gets the name.
-/

namespace ElfCarve

/-- No component of the rest asks for anything. -/
def IsLast (rest : List Component) : Prop :=
  rest.all (· = .blank)

instance (rest : List Component) : Decidable (IsLast rest) :=
  inferInstanceAs (Decidable (_ = true))

/-- To open a file for writing, nothing at all may stand behind the last name. -/
def Intent.Refuses (intent : Intent) (rest : List Component) : Prop :=
  intent = .create ∧ IsLast rest ∧ rest ≠ []

instance (intent : Intent) (rest : List Component) : Decidable (intent.Refuses rest) :=
  inferInstanceAs (Decidable (_ ∧ _))

/-- A walk that is to bind the last name ends at an entry that has it, even if that is a link. -/
def Intent.Takes (intent : Intent) (rest : List Component) : Prop :=
  intent = .bind ∧ IsLast rest

instance (intent : Intent) (rest : List Component) : Decidable (intent.Takes rest) :=
  inferInstanceAs (Decidable (_ ∧ _))

theorem Intent.not_refuses_look {rest : List Component} : ¬ Intent.look.Refuses rest :=
  fun refuses => nomatch refuses.1

theorem Intent.not_takes_look {rest : List Component} : ¬ Intent.look.Takes rest :=
  fun takes => nomatch takes.1

theorem Intent.not_takes_create {rest : List Component} : ¬ Intent.create.Takes rest :=
  fun takes => nomatch takes.1

namespace FileSystem

/-! ## One step of a walk -/

section Steps

variable {fs : FileSystem} {intent : Intent} {here : Location}
  {follow : Location → List Component → Except Errno Landing} {rest : List Component}

theorem walkWith_nil : fs.walkWith intent follow here [] = .ok (.found here) := by
  rw [walkWith]

theorem walkWith_of_not_directory {component : Component}
    (noDirectory : fs.get? here ≠ some .directory) :
    fs.walkWith intent follow here (component :: rest) = .error .notDirectory := by
  rw [walkWith, if_pos noDirectory]

theorem walkWith_stay {component : Component} (isDirectory : fs.get? here = some .directory)
    (idle : component = .blank ∨ component = .stay) :
    fs.walkWith intent follow here (component :: rest) = fs.walkWith intent follow here rest := by
  rw [walkWith, if_neg (not_not_intro isDirectory)]
  rcases idle with rfl | rfl <;> rfl

theorem walkWith_up (isDirectory : fs.get? here = some .directory) :
    fs.walkWith intent follow here (.up :: rest) = fs.walkWith intent follow here.tail rest := by
  rw [walkWith, if_neg (not_not_intro isDirectory)]

theorem walkWith_overlong (isDirectory : fs.get? here = some .directory) :
    fs.walkWith intent follow here (.overlong :: rest) =
      .error (if intent.Refuses rest then .isDirectory else .nameTooLong) := by
  rw [walkWith, if_neg (not_not_intro isDirectory), apply_ite Except.error]
  rfl

theorem walkWith_child {name : Name} (isDirectory : fs.get? here = some .directory) :
    fs.walkWith intent follow here (.child name :: rest) =
      if intent.Refuses rest then .error .isDirectory
      else match fs.get? (name :: here) with
        | none => if IsLast rest then .ok (.free here name) else .error .noEntry
        | some (.link target) =>
          if intent.Takes rest then .ok (.found (name :: here))
          else if target.bytes = [] then .error .noEntry
          else follow (base here target) (target.components ++ rest)
        | some _ =>
          if intent.Takes rest then .ok (.found (name :: here))
          else fs.walkWith intent follow (name :: here) rest := by
  rw [walkWith, if_neg (not_not_intro isDirectory)]
  rfl

end Steps

def walkBehind (fs : FileSystem) (intent : Intent) (links : Nat) (here : Location)
    (components : List Component) : Except Errno Landing :=
  match links with
  | 0 => .error .tooManyLinks
  | links + 1 => fs.walk intent links here components

theorem walk_eq_walkWith (fs : FileSystem) (intent : Intent) (links : Nat) :
    fs.walk intent links = fs.walkWith intent (fs.walkBehind intent links) := by
  cases links <;> rfl

/-! ## Routes and walks -/

/-- The steps of a walk that succeeds, from a location through components to a landing, with a
number of links that it may still follow. -/
inductive Route (fs : FileSystem) (intent : Intent) :
    Nat → Location → List Component → Landing → Prop
  | arrive {links here} : Route fs intent links here [] (.found here)
  | stay {links here component rest landing} (isDirectory : fs.get? here = some .directory)
      (idle : component = .blank ∨ component = .stay)
      (onward : Route fs intent links here rest landing) :
      Route fs intent links here (component :: rest) landing
  | up {links here rest landing} (isDirectory : fs.get? here = some .directory)
      (onward : Route fs intent links here.tail rest landing) :
      Route fs intent links here (.up :: rest) landing
  | free {links here name rest} (isDirectory : fs.get? here = some .directory)
      (allowed : ¬ intent.Refuses rest) (vacant : fs.get? (name :: here) = none)
      (last : IsLast rest) :
      Route fs intent links here (.child name :: rest) (.free here name)
  | taken {links here name rest entry} (isDirectory : fs.get? here = some .directory)
      (takes : intent.Takes rest) (present : fs.get? (name :: here) = some entry) :
      Route fs intent links here (.child name :: rest) (.found (name :: here))
  | enter {links here name rest entry landing} (isDirectory : fs.get? here = some .directory)
      (allowed : ¬ intent.Refuses rest) (passes : ¬ intent.Takes rest)
      (present : fs.get? (name :: here) = some entry) (noLink : ∀ target, entry ≠ .link target)
      (onward : Route fs intent links (name :: here) rest landing) :
      Route fs intent links here (.child name :: rest) landing
  | follow {links here name rest target landing} (isDirectory : fs.get? here = some .directory)
      (allowed : ¬ intent.Refuses rest) (passes : ¬ intent.Takes rest)
      (present : fs.get? (name :: here) = some (.link target)) (someTarget : target.bytes ≠ [])
      (onward : Route fs intent links (base here target) (target.components ++ rest) landing) :
      Route fs intent (links + 1) here (.child name :: rest) landing

variable {fs after : FileSystem} {intent : Intent} {links : Nat} {here : Location}
  {components : List Component} {landing : Landing}

theorem Route.of_walk (walked : fs.walk intent links here components = .ok landing) :
    fs.Route intent links here components landing := by
  -- The components are walked with one number of links, and a link goes on with one less.
  induction links using Nat.strongRecOn generalizing here components landing with
  | ind links followed =>
    rw [walk_eq_walkWith] at walked
    induction components generalizing here with
    | nil =>
      cases walked
      exact .arrive
    | cons component rest onward =>
      by_cases isDirectory : fs.get? here = some .directory
      · cases component with
        | blank =>
          rw [walkWith_stay isDirectory (.inl rfl)] at walked
          exact .stay isDirectory (.inl rfl) (onward walked)
        | stay =>
          rw [walkWith_stay isDirectory (.inr rfl)] at walked
          exact .stay isDirectory (.inr rfl) (onward walked)
        | up =>
          rw [walkWith_up isDirectory] at walked
          exact .up isDirectory (onward walked)
        | overlong =>
          rw [walkWith_overlong isDirectory] at walked
          cases walked
        | child name =>
          rw [walkWith_child isDirectory] at walked
          split at walked
          next => cases walked
          next allowed =>
            split at walked
            next vacant =>
              split at walked
              next last =>
                cases walked
                exact .free isDirectory allowed vacant last
              next => cases walked
            next target present =>
              split at walked
              next takes =>
                cases walked
                exact .taken isDirectory takes present
              next passes =>
                split at walked
                next => cases walked
                next someTarget =>
                  cases links with
                  | zero => cases walked
                  | succ links =>
                    exact .follow isDirectory allowed passes present someTarget
                      (followed links (Nat.lt_succ_self links) walked)
            next entry noLink present =>
              split at walked
              next takes =>
                cases walked
                exact .taken isDirectory takes present
              next passes =>
                exact .enter isDirectory allowed passes present noLink (onward walked)
      · rw [walkWith_of_not_directory isDirectory] at walked
        cases walked

theorem Route.walk_eq_ok (route : fs.Route intent links here components landing) :
    fs.walk intent links here components = .ok landing := by
  induction route with
  | arrive => rw [walk_eq_walkWith, walkWith_nil]
  | stay isDirectory idle _ ih =>
    rw [walk_eq_walkWith] at ih ⊢
    rw [walkWith_stay isDirectory idle, ih]
  | up isDirectory _ ih =>
    rw [walk_eq_walkWith] at ih ⊢
    rw [walkWith_up isDirectory, ih]
  | free isDirectory allowed vacant last =>
    rw [walk_eq_walkWith, walkWith_child isDirectory, if_neg allowed, vacant]
    exact if_pos last
  | @taken _ _ _ rest entry isDirectory takes present =>
    have allowed : ¬ intent.Refuses rest := fun refuses => by cases takes.1.symm.trans refuses.1
    rw [walk_eq_walkWith, walkWith_child isDirectory, if_neg allowed, present]
    cases entry <;> exact if_pos takes
  | @enter _ _ _ _ entry _ isDirectory allowed passes present noLink _ ih =>
    rw [walk_eq_walkWith] at ih ⊢
    rw [walkWith_child isDirectory, if_neg allowed, present]
    cases entry with
    | link target => exact absurd rfl (noLink target)
    | directory | file | device => exact (if_neg passes).trans ih
  | follow isDirectory allowed passes present someTarget _ ih =>
    rw [walk_eq_walkWith, walkWith_child isDirectory, if_neg allowed, present]
    simp only [if_neg passes, if_neg someTarget]
    exact ih

theorem walk_eq_ok_iff :
    fs.walk intent links here components = .ok landing ↔
      fs.Route intent links here components landing :=
  ⟨Route.of_walk, Route.walk_eq_ok⟩

/-! ## Routes in a changing file system -/

namespace Route

theorem mono {loc : Location} (route : fs.Route intent links here components (.found loc))
    (grows : fs.Grows after) : after.Route intent links here components (.found loc) := by
  -- Every entry that the route passes is still there, and no free name is passed on the way.
  generalize arrival : Landing.found loc = landing at route
  induction route with
  | arrive =>
    cases arrival
    exact .arrive
  | stay isDirectory idle _ ih => exact .stay (grows.directory isDirectory) idle (ih arrival)
  | up isDirectory _ ih => exact .up (grows.directory isDirectory) (ih arrival)
  | free => cases arrival
  | taken isDirectory takes present =>
    obtain ⟨later, presentAfter, -⟩ := grows.kept present
    cases arrival
    exact .taken (grows.directory isDirectory) takes presentAfter
  | enter isDirectory allowed passes present noLink _ ih =>
    obtain ⟨later, presentAfter, kind⟩ := grows.kept present
    exact .enter (grows.directory isDirectory) allowed passes presentAfter (kind.noLink noLink)
      (ih arrival)
  | follow isDirectory allowed passes present someTarget _ ih =>
    exact .follow (grows.directory isDirectory) allowed passes (grows.link present) someTarget
      (ih arrival)

theorem look_of_create {loc : Location}
    (route : fs.Route .create links here components (.found loc)) :
    fs.Route .look links here components (.found loc) := by
  generalize arrival : Landing.found loc = landing at route
  induction route with
  | arrive =>
    cases arrival
    exact .arrive
  | stay isDirectory idle _ ih => exact .stay isDirectory idle (ih arrival)
  | up isDirectory _ ih => exact .up isDirectory (ih arrival)
  | free => cases arrival
  | taken _ takes => cases takes.1
  | enter isDirectory _ _ present noLink _ ih =>
    exact .enter isDirectory Intent.not_refuses_look Intent.not_takes_look present noLink
      (ih arrival)
  | follow isDirectory _ _ present someTarget _ ih =>
    exact .follow isDirectory Intent.not_refuses_look Intent.not_takes_look present someTarget
      (ih arrival)

theorem directory_of_getLast_blank {loc : Location}
    (route : fs.Route .look links here components (.found loc))
    (blank : components.getLast? = some .blank) : fs.get? loc = some .directory := by
  generalize arrival : Landing.found loc = landing at route
  induction route with
  | arrive => cases blank
  | @stay _ _ _ rest _ isDirectory _ onward ih =>
    by_cases done : rest = []
    · -- The walk ends where it stands, and it could stay there.
      subst done
      cases onward
      cases arrival
      exact isDirectory
    · rw [List.getLast?_cons_of_ne_nil done] at blank
      exact ih blank arrival
  | @up _ _ rest _ _ _ ih | @enter _ _ _ rest _ _ _ _ _ _ _ _ ih =>
    have more : rest ≠ [] := by
      rintro rfl
      cases blank
    rw [List.getLast?_cons_of_ne_nil more] at blank
    exact ih blank arrival
  | free => cases arrival
  | taken _ takes => exact absurd takes Intent.not_takes_look
  | @follow _ _ _ rest _ _ _ _ _ _ _ _ ih =>
    have more : rest ≠ [] := by
      rintro rfl
      cases blank
    rw [List.getLast?_cons_of_ne_nil more] at blank
    refine ih ?_ arrival
    rw [List.getLast?_append_of_ne_nil _ more]
    exact blank

theorem create_of_look {loc : Location}
    (route : fs.Route .look links here components (.found loc))
    (noDirectory : fs.get? loc ≠ some .directory) :
    fs.Route .create links here components (.found loc) := by
  have allowed {links : Nat} {here : Location} (front : List Component) {rest : List Component}
      (onward : fs.Route .look links here (front ++ rest) (.found loc)) :
      ¬ Intent.create.Refuses rest := by
    rintro ⟨-, last, more⟩
    apply noDirectory
    apply onward.directory_of_getLast_blank
    rw [List.getLast?_append_of_ne_nil _ more, List.getLast?_eq_some_getLast more]
    have blank := List.all_eq_true.mp last _ (List.getLast_mem more)
    simpa using blank
  generalize arrival : Landing.found loc = landing at route
  induction route with
  | arrive =>
    cases arrival
    exact .arrive
  | stay isDirectory idle _ ih => exact .stay isDirectory idle (ih arrival)
  | up isDirectory _ ih => exact .up isDirectory (ih arrival)
  | free => cases arrival
  | taken _ takes => exact absurd takes Intent.not_takes_look
  | enter isDirectory _ _ present noLink onward ih =>
    cases arrival
    exact .enter isDirectory (allowed [] onward) Intent.not_takes_create present noLink (ih rfl)
  | follow isDirectory _ _ present someTarget onward ih =>
    cases arrival
    exact .follow isDirectory (allowed _ onward) Intent.not_takes_create present someTarget (ih rfl)

theorem bind_of_look {loc : Location}
    (route : fs.Route .look links here components (.found loc)) :
    ∃ other, fs.Route .bind links here components (.found other) := by
  generalize arrival : Landing.found loc = landing at route
  induction route with
  | @arrive _ here => exact ⟨here, .arrive⟩
  | stay isDirectory idle _ ih =>
    obtain ⟨other, onward⟩ := ih arrival
    exact ⟨other, .stay isDirectory idle onward⟩
  | up isDirectory _ ih =>
    obtain ⟨other, onward⟩ := ih arrival
    exact ⟨other, .up isDirectory onward⟩
  | free => cases arrival
  | taken _ takes => exact absurd takes Intent.not_takes_look
  | @enter _ here name rest _ _ isDirectory _ _ present noLink _ ih =>
    by_cases takes : Intent.bind.Takes rest
    · exact ⟨name :: here, .taken isDirectory takes present⟩
    · obtain ⟨other, onward⟩ := ih arrival
      exact ⟨other,
        .enter isDirectory (fun refuses => nomatch refuses.1) takes present noLink onward⟩
  | @follow _ here name rest _ _ isDirectory _ _ present someTarget _ ih =>
    by_cases takes : Intent.bind.Takes rest
    · exact ⟨name :: here, .taken isDirectory takes present⟩
    · obtain ⟨other, onward⟩ := ih arrival
      exact ⟨other, .follow isDirectory (fun refuses => nomatch refuses.1) takes present someTarget
        onward⟩

theorem vacant {dir : Location} {name : Name}
    (route : fs.Route intent links here components (.free dir name)) :
    fs.get? dir = some .directory ∧ fs.get? (name :: dir) = none := by
  generalize arrival : Landing.free dir name = landing at route
  induction route with
  | arrive | taken => cases arrival
  | stay _ _ _ ih | up _ _ ih | enter _ _ _ _ _ _ ih | follow _ _ _ _ _ _ ih => exact ih arrival
  | free isDirectory _ vacant _ =>
    cases arrival
    exact ⟨isDirectory, vacant⟩

theorem of_isLast (isDirectory : fs.get? here = some .directory) (last : IsLast components) :
    fs.Route intent links here components (.found here) := by
  induction components with
  | nil => exact .arrive
  | cons component rest ih =>
    simp only [IsLast, List.all_cons, Bool.and_eq_true, decide_eq_true_eq] at last
    exact .stay isDirectory (.inl last.1) (ih last.2)

/-- A route to a free name leads to the entry that gets the name.  If it is found by another kind of
walk than the one that made it, it must be a directory: components that ask for nothing may stand
behind its name. -/
theorem settle {goal : Intent} {dir : Location} {name : Name} {entry : Entry}
    (route : fs.Route intent links here components (.free dir name)) (grows : fs.Grows after)
    (present : after.get? (name :: dir) = some entry) (noLink : ∀ target, entry ≠ .link target)
    (goal_ne : goal ≠ .bind) (suits : intent = .create ∨ goal = .look ∧ entry = .directory) :
    after.Route goal links here components (.found (name :: dir)) := by
  have passes (rest : List Component) : ¬ goal.Takes rest := fun takes => goal_ne takes.1
  have allows {rest : List Component} (allowed : ¬ intent.Refuses rest) : ¬ goal.Refuses rest := by
    rintro ⟨rfl, refuses⟩
    rcases suits with rfl | ⟨impossible, -⟩
    · exact allowed ⟨rfl, refuses⟩
    · cases impossible
  generalize arrival : Landing.free dir name = landing at route
  induction route with
  | arrive | taken => cases arrival
  | stay isDirectory idle _ ih => exact .stay (grows.directory isDirectory) idle (ih arrival)
  | up isDirectory _ ih => exact .up (grows.directory isDirectory) (ih arrival)
  | @free links _ _ rest isDirectory allowed _ last =>
    cases arrival
    refine .enter (grows.directory isDirectory) (allows allowed) (passes _) present noLink ?_
    rcases suits with rfl | ⟨-, rfl⟩
    · -- A file is created only by the last component of all.
      have rest_eq : rest = [] := Decidable.of_not_not fun more => allowed ⟨rfl, last, more⟩
      rw [rest_eq]
      exact .arrive
    · exact of_isLast present last
  | enter isDirectory allowed _ taken taken_noLink _ ih =>
    obtain ⟨later, presentAfter, kind⟩ := grows.kept taken
    exact .enter (grows.directory isDirectory) (allows allowed) (passes _) presentAfter
      (kind.noLink taken_noLink) (ih arrival)
  | follow isDirectory allowed _ taken someTarget _ ih =>
    exact .follow (grows.directory isDirectory) (allows allowed) (passes _) (grows.link taken)
      someTarget (ih arrival)

end Route

end FileSystem

end ElfCarve
