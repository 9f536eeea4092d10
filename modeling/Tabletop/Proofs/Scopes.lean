/-
# Laws of scripts, by the functions they call

What a script does beyond its own scope it does by calling functions.  So a law of
computations in a scope that holds of lookups and passes on from one computation to
the next (`ScopedLaw`) holds of a script as soon as it holds of each call that the
script has, at any depth (`ScopedLaw.eval`), and of a row of requires if it holds of
every one (`ScopedLaw.requires`).

`Tabletop.Proofs.Congruence` makes the induction for laws of runs, which hold whatever a
script calls.  Here a law can depend on what is called, and on the scope.

One such law is kept by every function there is: nothing that a script does changes
its bindings (`Move.check_bindings`).  What it stores is the only thing that it leaves
behind in its scope.
-/

import Tabletop.Proofs.Evaluation
import Tabletop.Proofs.Gates

namespace Tabletop

/-! ### What is called -/

namespace Expr

mutual

/-- The names of the functions an expression calls, at any depth. -/
def targets : Expr → List String
  | literal _ | role _ | name _ => []
  | list items | tuple items => targetsAll items
  | call target args variadic named =>
    target :: targetsAll args ++ targetsAll variadic ++ targetsNamed named

/-- The names of the functions that expressions call. -/
def targetsAll : List Expr → List String
  | [] => []
  | e :: es => targets e ++ targetsAll es

/-- The names of the functions that named arguments call. -/
def targetsNamed : List (String × Expr) → List String
  | [] => []
  | (_, e) :: es => targets e ++ targetsNamed es

end

end Expr

/-! ### Laws -/

/-- The call of a function by its name. -/
def Interpreter.callNamed (p : Powers) (target : String) (a : Arguments) : Scoped Value := do
  let f ← Run.ask (function target)
  call p f a

/-- A law of computations in a scope that holds of lookups, in the engine and in the
scope, and passes on. -/
structure ScopedLaw (P : {α : Type} → Scoped α → Prop) : Prop where
  ask : ∀ {α : Type} (f : Engine → Except Fault α), P (liftM (Run.ask f))
  get : P (get : Scoped Scope)
  bind : ∀ {α β : Type} {x : Scoped α} {f : α → Scoped β}, P x → (∀ a, P (f a)) → P (x >>= f)

namespace ScopedLaw

open Interpreter

variable {P : {α : Type} → Scoped α → Prop} {p : Powers}

/-- A given result. -/
theorem result (hP : ScopedLaw P) {α : Type} (a : α) : P (pure a) := hP.ask fun _ => .ok a

mutual

/-- **A script obeys a law if its calls do.** -/
theorem eval (hP : ScopedLaw P) :
    ∀ e : Expr, (∀ target ∈ e.targets, ∀ a, P (callNamed p target a)) → P (eval p e)
  | .literal _, _ => by rw [Interpreter.eval]; exact hP.result _
  | .role _, _ => by
    rw [Interpreter.eval]
    exact hP.bind hP.get fun _ => hP.result _
  | .name _, _ => by rw [Interpreter.eval]; exact hP.result _
  | .list items, h => by
    rw [Interpreter.eval]
    exact hP.bind (evalAll hP items h) fun _ => hP.result _
  | .tuple items, h => by
    rw [Interpreter.eval]
    exact hP.bind (evalAll hP items h) fun _ => hP.result _
  | .call target args variadic named, h => by
    simp only [Expr.targets, List.cons_append, List.forall_mem_cons, List.forall_mem_append] at h
    obtain ⟨called, ⟨hargs, hvariadic⟩, hnamed⟩ := h
    rw [Interpreter.eval]
    exact hP.bind (evalAll hP args hargs) fun _ => hP.bind (evalAll hP variadic hvariadic) fun _ =>
      hP.bind (evalNamed hP named hnamed) fun _ => called _

theorem evalAll (hP : ScopedLaw P) : ∀ es : List Expr,
    (∀ target ∈ Expr.targetsAll es, ∀ a, P (callNamed p target a)) → P (evalAll p es)
  | [], _ => by rw [Interpreter.evalAll]; exact hP.result _
  | e :: es, h => by
    rw [Expr.targetsAll, List.forall_mem_append] at h
    rw [Interpreter.evalAll]
    exact hP.bind (eval hP e h.1) fun _ => hP.bind (evalAll hP es h.2) fun _ => hP.result _

theorem evalNamed (hP : ScopedLaw P) : ∀ es : List (String × Expr),
    (∀ target ∈ Expr.targetsNamed es, ∀ a, P (callNamed p target a)) → P (evalNamed p es)
  | [], _ => by rw [Interpreter.evalNamed]; exact hP.result _
  | (_, e) :: es, h => by
    rw [Expr.targetsNamed, List.forall_mem_append] at h
    rw [Interpreter.evalNamed]
    exact hP.bind (eval hP e h.1) fun _ => hP.bind (evalNamed hP es h.2) fun _ => hP.result _

end

/-- A row of requires obeys a law if each of them does. -/
theorem requires (hP : ScopedLaw P) {run : Runner} {ss : List Script}
    (h : ∀ s ∈ ss, P (run s)) : P (Move.requires run ss) := by
  induction ss with
  | nil => exact hP.result _
  | cons s ss ih =>
    obtain ⟨hs, hss⟩ := List.forall_mem_cons.1 h
    rw [Move.requires]
    refine hP.bind hs fun v => hP.bind (hP.ask _) fun counts => ?_
    cases counts with
    | true => exact ih hss
    | false => exact hP.result _

end ScopedLaw

/-! ### Bindings -/

/-- A computation that leaves the bindings of its scope as they were. -/
def KeepsBindings {α : Type} (x : Scoped α) : Prop :=
  ∀ (s : Scope) (g : Engine) (a : α) (left : Scope) (h : Engine),
    x s g = some (.ok (a, left), h) → left.bindings = s.bindings

namespace KeepsBindings

/-- What is done to the engine is not done to the scope. -/
theorem run {α : Type} (x : Run α) : KeepsBindings (liftM x : Scoped α) := by
  intro s g a left h k
  obtain ⟨b, m, _, k⟩ := Run.bind_eq_ok_iff.1 k
  cases k
  rfl

theorem law : ScopedLaw fun {_} x => KeepsBindings x where
  ask f := run (Run.ask f)
  get s g a left h k := by
    cases k
    rfl
  bind hx hf s g b left h k := by
    obtain ⟨⟨a, next⟩, m, kx, kf⟩ := Run.bind_eq_ok_iff.1 k
    calc left.bindings
      _ = next.bindings := hf a next m b left h kf
      _ = s.bindings := hx s g a next m kx

variable {p : Powers}

/-- To store a value is not to bind anything. -/
theorem store (name : String) (v : Value) : KeepsBindings (modify (·.store name v) : Scoped Unit) := by
  intro s g _ left h k
  cases k
  rfl

theorem control (c : Control) (a : Arguments) : KeepsBindings (Interpreter.control p c a) := by
  cases c with
  | roll => exact law.bind (law.ask _) fun _ => law.bind (run _) fun _ => law.result _
  | test =>
    exact law.bind (law.ask _) fun _ => law.bind (law.ask _) fun _ => law.bind (law.ask _) fun _ =>
      law.bind (run _) fun _ => law.result _
  | perform =>
    exact law.bind (law.ask _) fun _ => law.bind (law.ask _) fun _ => law.bind (law.ask _) fun _ =>
      law.bind (run _) fun _ => law.result _
  | delay =>
    exact law.bind (law.ask _) fun _ => law.bind (law.ask _) fun _ => law.bind (run _) fun _ =>
      law.bind law.get fun _ => law.bind (run _) fun _ => law.result _
  | advance => exact law.bind (law.ask _) fun _ => law.bind (run _) fun _ => law.result _

/-- No function changes the bindings of the script that calls it. -/
theorem call (f : Builtin) (a : Arguments) : KeepsBindings (Interpreter.call p f a) := by
  cases f with
  | query q => exact law.bind law.get fun _ => law.ask _
  | assign =>
    exact law.bind (law.ask _) fun name => law.bind (law.ask _) fun v =>
      law.bind (store name v) fun _ => law.result _
  | change c => exact run (c.run a)
  | control c => exact control c a

/-- **A script leaves its bindings as they were.** -/
theorem eval (e : Expr) : KeepsBindings (Interpreter.eval p e) :=
  law.eval e fun _ _ a => law.bind (law.ask _) fun f => call f a

end KeepsBindings

/-- A check of requires that keep their bindings keeps them. -/
theorem Move.check_bindings {run : Runner} (h : ∀ s, KeepsBindings (run s)) :
    KeepsBindings (check run) := by
  have law := KeepsBindings.law
  refine law.bind (law.bind law.get fun scope => ?_) fun name => law.bind (law.ask _) fun ss =>
    law.requires fun s _ => h s
  cases scope.bindings.mover with
  | some name => exact law.result name
  | none => exact law.ask fun _ => .error _

end Tabletop
