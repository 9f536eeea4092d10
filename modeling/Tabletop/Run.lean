/-
# Runs: computations on an engine

A run starts from an engine.  It may take more fuel than it was given, and then
has no outcome at all (`none`).  Otherwise it leaves an engine and either a
result or a fault; a fault ends the run but does not undo what was changed
before it.

Scripts run inside a scope on top of that (`Scoped`).  The scope is given up
when a script fails.
-/

import Tabletop.Engine

namespace Tabletop

/-- A computation on an engine. -/
def Run (α : Type) : Type := Engine → Option (Except Fault α × Engine)

namespace Run

variable {α β : Type}

/-- Goes on from a result and the engine that was left. -/
def andThen (x : Run α) (f : α → Run β) : Run β := fun g =>
  match x g with
  | none => none
  | some (.error fault, g) => some (.error fault, g)
  | some (.ok a, g) => f a g

/-- Goes on from a fault and the engine that was left. -/
def orElse (x : Run α) (handler : Fault → Run α) : Run α := fun g =>
  match x g with
  | none => none
  | some (.error fault, g) => handler fault g
  | some (.ok a, g) => some (.ok a, g)

instance : Monad Run where
  pure a := fun g => some (.ok a, g)
  bind := andThen

instance : MonadExceptOf Fault Run where
  throw fault := fun g => some (.error fault, g)
  tryCatch := orElse

instance : MonadStateOf Engine Run where
  get := fun g => some (.ok g, g)
  set g := fun _ => some (.ok (), g)
  modifyGet f := fun g => some (.ok (f g).1, (f g).2)

theorem andThen_pure (x : Run α) : andThen x pure = x := by
  funext g
  unfold andThen
  cases h : x g with
  | none => rfl
  | some r => obtain ⟨_ | _, _⟩ := r <;> rfl

theorem andThen_assoc {γ : Type} (x : Run α) (f : α → Run β) (k : β → Run γ) :
    andThen (andThen x f) k = andThen x fun a => andThen (f a) k := by
  funext g
  unfold andThen
  cases h : x g with
  | none => rfl
  | some r => obtain ⟨_ | _, _⟩ := r <;> rfl

instance : LawfulMonad Run :=
  .mk' Run andThen_pure (fun _ _ => rfl) andThen_assoc

/-- More fuel is needed. -/
def outOfFuel : Run α := fun _ => none

/-- Looks something up in the engine. -/
def ask (f : Engine → Except Fault α) : Run α := fun g => some (f g, g)

/-- Changes the engine in one piece, or fails and leaves it. -/
def change (f : Engine → Except Fault (α × Engine)) : Run α := fun g =>
  match f g with
  | .error fault => some (.error fault, g)
  | .ok (a, g) => some (.ok a, g)

/-- Changes the engine without fail. -/
def update (f : Engine → Engine) : Run Unit := fun g => some (.ok (), f g)

/-- Runs over items in order, every one of them; whether any answered true. -/
def sweep (x : α → Run Bool) (items : List α) : Run Bool :=
  items.foldlM
    (fun any a => do
      let now ← x a
      return any || now)
    false

theorem pure_apply (a : α) (g : Engine) : (pure a : Run α) g = some (.ok a, g) := rfl

/-- A run that went on. -/
theorem bind_apply_ok {x : Run α} {f : α → Run β} {g h : Engine} {a : α}
    (e : x g = some (.ok a, h)) : (x >>= f) g = f a h := by
  show andThen x f g = _
  unfold andThen
  rw [e]

/-- A run that failed at its first part. -/
theorem bind_apply_error {x : Run α} {f : α → Run β} {g h : Engine} {fault : Fault}
    (e : x g = some (.error fault, h)) : (x >>= f) g = some (.error fault, h) := by
  show andThen x f g = _
  unfold andThen
  rw [e]

/-- A run that has no outcome at its first part. -/
theorem bind_apply_none {x : Run α} {f : α → Run β} {g : Engine} (e : x g = none) :
    (x >>= f) g = none := by
  show andThen x f g = _
  unfold andThen
  rw [e]

/-- A run that went on came to a result first. -/
theorem bind_eq_ok_iff {x : Run α} {f : α → Run β} {g g' : Engine} {b : β} :
    (x >>= f) g = some (.ok b, g') ↔
      ∃ a h, x g = some (.ok a, h) ∧ f a h = some (.ok b, g') := by
  show andThen x f g = _ ↔ _
  unfold andThen
  cases hx : x g with
  | none => simp
  | some r =>
    obtain ⟨_ | a, h⟩ := r
    · simp
    · exact ⟨fun e => ⟨a, h, rfl, e⟩, fun ⟨_, _, e, e'⟩ => by cases e; exact e'⟩

/-- A run fails at its first part or at its second. -/
theorem bind_eq_error_iff {x : Run α} {f : α → Run β} {g g' : Engine} {fault : Fault} :
    (x >>= f) g = some (.error fault, g') ↔
      x g = some (.error fault, g') ∨
        ∃ a h, x g = some (.ok a, h) ∧ f a h = some (.error fault, g') := by
  show andThen x f g = _ ↔ _
  unfold andThen
  cases hx : x g with
  | none => simp
  | some r =>
    obtain ⟨_ | a, h⟩ := r
    · simp
    · exact ⟨fun e => .inr ⟨a, h, rfl, e⟩, fun e => by
        obtain e | ⟨_, _, e, e'⟩ := e
        · cases e
        · cases e; exact e'⟩

/-- A run that has an outcome has one for its first part. -/
theorem bind_eq_some_iff {x : Run α} {f : α → Run β} {g h : Engine} {r : Except Fault β} :
    (x >>= f) g = some (r, h) ↔
      (∃ fault, r = .error fault ∧ x g = some (.error fault, h)) ∨
        ∃ a m, x g = some (.ok a, m) ∧ f a m = some (r, h) := by
  cases r with
  | error fault => simp [bind_eq_error_iff]
  | ok b => simp [bind_eq_ok_iff]

section Ask

variable {f : Engine → Except Fault α} {k : α → Run β} {g h : Engine}

/-- A run that went on from a lookup. -/
theorem ask_bind_apply {a : α} (e : f g = .ok a) : (ask f >>= k) g = k a g := by
  refine bind_apply_ok ?_
  rw [ask, e]

/-- What holds of the fault, and of every way to go on, holds of a run from a lookup. -/
theorem ask_bind_elim {P : Option (Except Fault β × Engine) → Prop}
    (failed : ∀ fault, f g = .error fault → P (some (.error fault, g)))
    (found : ∀ a, f g = .ok a → P (k a g)) : P ((ask f >>= k) g) := by
  cases hf : f g with
  | error fault =>
    have e : ask f g = some (.error fault, g) := by rw [ask, hf]
    rw [bind_apply_error e]
    exact failed fault hf
  | ok a =>
    rw [ask_bind_apply hf]
    exact found a hf

theorem ask_bind_eq_ok_iff {b : β} : (ask f >>= k) g = some (.ok b, h) ↔
    ∃ a, f g = .ok a ∧ k a g = some (.ok b, h) := by
  refine ask_bind_elim (P := (· = _ ↔ _)) (fun fault hf => ?_) fun a hf => ?_ <;> simp [hf]

end Ask

end Run

/-- A computation of a script. -/
abbrev Scoped (α : Type) : Type := StateT Scope Run α

/-- Runs in a scope of its own. -/
def Scoped.within {α : Type} (x : Scoped α) (scope : Scope) : Run α := do
  return (← x scope).1

/-- What runs a script. -/
abbrev Runner := Script → Scoped Value

end Tabletop
