import ElfCarve.Proofs.FileSystem.Descent

/-!
# Writing by a plain path

Writing by a plain path goes down to the directory of its last name.  What comes of it is decided by
what stands there under that name.
-/

namespace ElfCarve.FileSystem

open Overlay

variable {fs other : FileSystem} {dir : Location} {content : Bytes} {component : Component}
  {front : List Bytes} {last : Bytes} {errno : Errno} {overlay : Overlay}

/-- What putting content under a name in a directory comes to: a file, nothing at all if a device
takes it, or a refusal. -/
def deposit (fs : FileSystem) (dir : Location) (content : Bytes) :
    Component → Except Errno Overlay
  | .child name =>
    match fs.get? (name :: dir) with
    | none | some (.file _) => .ok (file (name :: dir) content)
    | some (.device device) =>
      match device.refusal? content with
      | some errno => .error errno
      | none => .ok nothing
    | some _ => .error .isDirectory
  | _ => .error .nameTooLong

theorem deposit_congr (alike : ∀ name, component = .child name →
      other.get? (name :: dir) = fs.get? (name :: dir)) :
    other.deposit dir content component = fs.deposit dir content component := by
  cases component with
  | blank | stay | up | overlong => rfl
  | child name => rw [deposit, deposit, alike name rfl]

theorem deposit_eq_ok (deposited : fs.deposit dir content component = .ok overlay) :
    ∃ name, component = .child name ∧
      (overlay = nothing ∨ overlay = file (name :: dir) content) := by
  cases component with
  | blank | stay | up | overlong => cases deposited
  | child name =>
    refine ⟨name, rfl, ?_⟩
    rw [deposit] at deposited
    split at deposited
    next =>
      cases deposited
      exact .inr rfl
    next =>
      cases deposited
      exact .inr rfl
    next =>
      split at deposited
      next => cases deposited
      next =>
        cases deposited
        exact .inl rfl
    next => cases deposited

theorem write_names (content : Bytes) (linkFree : fs.LinkFree)
    (names : Path.AreNames (front ++ [last])) (walkable : Walkable (.ofSegments (front ++ [last])))
    (descended : fs.descend fs.workingDirectory (front.map Component.ofSegment) = .ok dir) :
    (∃ errno, fs.deposit dir content (Component.ofSegment last) = .error errno ∧
      fs.write (.ofSegments (front ++ [last])) content = .error (.system errno)) ∨
    ∃ overlay after, fs.deposit dir content (Component.ofSegment last) = .ok overlay ∧
      fs.write (.ofSegments (front ++ [last])) content = .ok after ∧ fs.Overlaid overlay after := by
  have resolved := resolve_names .create linkFree names walkable
  obtain ⟨dirStands, -⟩ := (descend_eq_ok_iff fs.get?_workingDirectory).mp descended
  rw [descended] at resolved
  rw [write, resolved]
  cases Component.ofSegment last with
  | blank | stay | up | overlong => exact .inl ⟨_, rfl, rfl⟩
  | child name =>
    cases present : fs.get? (name :: dir) with
    | none =>
      refine .inr ⟨file (name :: dir) content, fs.add dir name (.file content), ?_, ?_, ?_⟩
      · rw [deposit, present]
      · simp [Except.bind, Except.mapError, arrive, present]
      · exact (sets_add dirStands present (.file content)).overlaid_file
    | some entry =>
      simp only [Except.bind, Except.mapError, arrive, present, deposit]
      cases entry with
      | directory => exact .inl ⟨_, rfl, rfl⟩
      | link target => exact absurd present (linkFree _ target)
      | file old => exact .inr ⟨_, _, rfl, rfl, (sets_overwrite present content).overlaid_file⟩
      | device device =>
        cases refused : device.refusal? content with
        | some errno => refine .inl ⟨errno, ?_, ?_⟩ <;> simp only [refused]
        | none => refine .inr ⟨nothing, fs, ?_, ?_, .refl fs⟩ <;> simp only [refused]

end ElfCarve.FileSystem
