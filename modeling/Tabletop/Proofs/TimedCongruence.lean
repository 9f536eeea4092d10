/-
# Congruence through time: from the pieces of a script to whole operations

A drain catches the faults of callbacks, and a clock step records the state,
moves the clock and ages the queue.  A relation between runs that is a
congruence, holds of these too and passes through catching a fault
(`TimedCongruence`) holds of time passing (`Clock.pass_related`), so the knot of
scripts that let time pass is tied for it (`powers_related`).  It holds of every
operation, on two amounts of fuel if it does of scripts and drains on them, once
it does of adding the entities that the operation adds (`Operation.run_related`).

An invariant of engines is the case of runs that keep it (`Preserves`).
-/

import Tabletop.Proofs.Reachable

namespace Tabletop

/-- A congruence that also holds of what the clock does. -/
structure TimedCongruence (R : {α : Type} → Run α → Run α → Prop) : Prop extends
    Congruence R where
  outOfFuel : ∀ {α : Type}, R (Run.outOfFuel : Run α) Run.outOfFuel
  orElse : ∀ {α : Type} {x y : Run α} {f k : Fault → Run α},
    R x y → (∀ fault, R (f fault) (k fault)) → R (x.orElse f) (y.orElse k)
  takeDue : R Clock.takeDue Clock.takeDue
  requeue : ∀ ds, R (Run.update (Clock.requeue ds)) (Run.update (Clock.requeue ds))
  age : R (Run.update Clock.age) (Run.update Clock.age)
  record : R (Run.update Engine.record) (Run.update Engine.record)
  advance : R (Run.update Clock.advance) (Run.update Clock.advance)

variable {R : {α : Type} → Run α → Run α → Prop}

/-! ### Time -/

namespace Clock

variable {fire fire' : Delay → Run Unit} {tick tick' : Run Unit}

theorem fireAll_related (hR : TimedCongruence R) (hf : ∀ d, R (fire d) (fire' d)) :
    ∀ ds : List Delay, R (fireAll fire ds) (fireAll fire' ds)
  | [] => hR.result ()
  | d :: ds => hR.bind
      (hR.orElse (hf d) fun fault => hR.bind (hR.requeue ds) fun _ => hR.ask fun _ => .error fault)
      fun _ => fireAll_related hR hf ds

theorem drain_related (hR : TimedCongruence R) (hf : ∀ d, R (fire d) (fire' d)) :
    ∀ scans : Nat, R (drain fire scans) (drain fire' scans)
  | 0 => hR.outOfFuel
  | scans + 1 => hR.bind hR.takeDue fun due => by
      cases due with
      | nil => exact hR.result ()
      | cons d ds => exact hR.bind (fireAll_related hR hf _) fun _ => drain_related hR hf scans

variable {scans scans' : Nat}

theorem step_related (hR : TimedCongruence R) (ht : R tick tick')
    (hd : R (drain fire scans) (drain fire' scans')) :
    R (step fire tick scans) (step fire' tick' scans') :=
  hR.bind hR.record fun _ => hR.bind hR.advance fun _ => hR.bind ht fun _ =>
    hR.bind hR.age fun _ => hd

theorem steps_related (hR : TimedCongruence R) (ht : R tick tick')
    (hd : R (drain fire scans) (drain fire' scans')) :
    ∀ n : Nat, R (steps fire tick scans n) (steps fire' tick' scans' n)
  | 0 => hR.result ()
  | n + 1 => hR.bind (step_related hR ht hd) fun _ => steps_related hR ht hd n

/-- Time passes alike where ticks and drains are alike. -/
theorem pass_related (hR : TimedCongruence R) (ht : R tick tick')
    (hd : R (drain fire scans) (drain fire' scans')) (n : Int) :
    R (pass fire tick scans n) (pass fire' tick' scans' n) :=
  hR.bind hd fun _ => steps_related hR ht hd n.toNat

end Clock

/-! ### Games -/

/-- **What a script can set going is related to itself.** -/
theorem powers_related (hR : TimedCongruence R) : ∀ fuel, (powers fuel).Related R (powers fuel)
  | 0 =>
    { test := fun _ => hR.outOfFuel
      perform := fun _ _ _ => hR.outOfFuel
      pass := fun _ => hR.outOfFuel }
  | fuel + 1 =>
    have hrun := Interpreter.run_related hR.toCongruence (powers_related hR fuel)
    have hd := Clock.drain_related hR (Delay.fire_related hR.toCongruence hrun) fuel
    { test := Move.test_related hR.toCongruence hrun
      perform := Move.perform_related hR.toCongruence hrun
      pass := Clock.pass_related hR (Move.tickRule_related hR.toCongruence hrun) hd }

/-- What runs on one amount of fuel is related to what runs on another. -/
structure RunsRelated (R : {α : Type} → Run α → Run α → Prop) (m n : Nat) : Prop where
  runner : ∀ s, Lifted R (runner m s) (runner n s)
  drain : R (Game.drain m) (Game.drain n)

/-- What runs on an amount of fuel is related to itself. -/
theorem TimedCongruence.runs (hR : TimedCongruence R) (fuel : Nat) : RunsRelated R fuel fuel :=
  have hrun := Interpreter.run_related hR.toCongruence (powers_related hR fuel)
  { runner := hrun
    drain := Clock.drain_related hR (Delay.fire_related hR.toCongruence hrun) fuel }

/-- The entities an operation may add. -/
def Operation.Adds : Operation → Entity → Prop
  | insert k, e => e = k
  | load d, e => ∃ require effect, e = .ofDefinition d require effect
  | loadAll ds, e => ∃ d ∈ ds, ∃ require effect, e = .ofDefinition d require effect
  | _, _ => False

namespace Game

theorem compile_related (hR : Congruence R) (raw : String) : R (compile raw) (compile raw) :=
  hR.change .compile

theorem compileAll_related (hR : Congruence R) :
    ∀ raws : List String, R (compileAll raws) (compileAll raws)
  | [] => hR.result []
  | raw :: raws => hR.bind (compile_related hR raw) fun s =>
      hR.bind (compileAll_related hR raws) fun ss => hR.result (s :: ss)

theorem load_related (hR : Congruence R) (d : Entity.Definition)
    (add : ∀ require effect, R (Mutation.insert (.ofDefinition d require effect))
      (Mutation.insert (.ofDefinition d require effect))) : R (load d) (load d) :=
  hR.bind (compileAll_related hR d.require) fun require =>
    hR.bind (compileAll_related hR d.effect) fun effect => add require effect

theorem loadAll_related (hR : Congruence R) : ∀ ds : List Entity.Definition,
    (∀ d ∈ ds, ∀ require effect, R (Mutation.insert (.ofDefinition d require effect))
      (Mutation.insert (.ofDefinition d require effect))) → R (loadAll ds) (loadAll ds)
  | [], _ => hR.result ()
  | d :: ds, add => hR.bind (load_related hR d (add d List.mem_cons_self)) fun _ =>
      loadAll_related hR ds fun d' hd => add d' (List.mem_cons_of_mem d hd)

end Game

/-- The meaning of what a text evaluates to, given what runs scripts. -/
def Game.evaluateWith (run : Runner) (source : String) (bindings : Bindings) : Run Value := do
  let s ← Game.compile source
  let v ← (run s).within { bindings }
  Run.ask (·.resolve v)

/-- An operation, given what runs scripts, what lets time pass and what drains. -/
def Operation.runWith (run : Runner) (pass : Int → Run Unit) (drain : Run Unit) :
    Operation → Run Unit
  | .evaluate source bindings => do let _ ← Game.evaluateWith run source bindings
  | .runIn scope script => do let _ ← (run script).within scope
  | .test c => do let _ ← Move.test run c
  | .perform casters targets moves => do let _ ← Move.perform run casters targets moves
  | .pass n => pass n
  | .drain => drain
  | op => op.run 0

/-- On an amount of fuel an operation is done with what runs on it. -/
theorem Operation.run_eq_runWith (op : Operation) (fuel : Nat) :
    op.run fuel = op.runWith (runner fuel) (Game.pass fuel) (Game.drain fuel) := by
  cases op <;> rfl

/-- **An operation is related to itself done with related parts**, if adding the entities
it may add is. -/
theorem Operation.runWith_related (hR : Congruence R) {run run' : Runner}
    {pass pass' : Int → Run Unit} {drain drain' : Run Unit}
    (hrun : ∀ s, Lifted R (run s) (run' s)) (hpass : ∀ n, R (pass n) (pass' n))
    (hdrain : R drain drain') (op : Operation)
    (add : ∀ e, op.Adds e → R (Mutation.insert e) (Mutation.insert e)) :
    R (op.runWith run pass drain) (op.runWith run' pass' drain') := by
  have done {α : Type} {x y : Run α} (h : R x y) : R (do let _ ← x) (do let _ ← y) :=
    hR.bind h fun _ => hR.result ()
  cases op with
  | compile raw => exact done (Game.compile_related hR raw)
  | insert e => exact add e rfl
  | load d => exact Game.load_related hR d fun _ _ => add _ ⟨_, _, rfl⟩
  | loadAll ds => exact Game.loadAll_related hR ds fun d hd _ _ => add _ ⟨d, hd, _, _, rfl⟩
  | changeStat name stat change => exact done (hR.piece .changeStat)
  | setString name string value => exact done (hR.piece .setString)
  | appendItem name list item => exact done (hR.piece .appendItem)
  | removeItem name list item => exact done (hR.piece .removeItem)
  | travel name goal => exact done (hR.piece .travel)
  | recruit template location owner list => exact done (hR.piece .recruit)
  | delete name => exact done (hR.piece .delete)
  | evaluate source bindings =>
    exact done (hR.bind (Game.compile_related hR source) fun s =>
      hR.bind (hR.within (hrun s) _) fun _ => hR.ask _)
  | runIn scope script => exact done (hR.within (hrun script) scope)
  | test c => exact done (Move.test_related hR hrun c)
  | perform casters targets moves =>
    exact done (Move.perform_related hR hrun casters targets moves)
  | pass n => exact hpass n
  | drain => exact hdrain
  | schedule callback ticks scope => exact hR.schedule callback ticks scope
  | roll low high => exact done (hR.change .roll)

/-- **An operation on one amount of fuel is related to itself on another**, if adding
the entities it may add is. -/
theorem Operation.run_related (hR : TimedCongruence R) {m n : Nat} (h : RunsRelated R m n)
    (op : Operation) (add : ∀ e, op.Adds e → R (Mutation.insert e) (Mutation.insert e)) :
    R (op.run m) (op.run n) := by
  rw [op.run_eq_runWith m, op.run_eq_runWith n]
  exact op.runWith_related hR.toCongruence h.runner
    (Clock.pass_related hR (Move.tickRule_related hR.toCongruence h.runner) h.drain) h.drain add

/-! ### Invariants -/

/-- A run that keeps a property of engines, whether it fails or not. -/
def Preserves (P : Engine → Prop) {α : Type} (x : Run α) : Prop :=
  ∀ g r h, x g = some (r, h) → P g → P h

namespace Preserves

variable {P : Engine → Prop} {α : Type}

theorem update {f : Engine → Engine} (h : ∀ {g}, P g → P (f g)) : Preserves P (Run.update f) := by
  intro g r h' k hg
  cases k
  exact h hg

/-- **What the pieces of a script and the clock keep, every run keeps.** -/
theorem timedCongruence (alters : ∀ {g h}, Alters g h → P g → P h)
    (delays : ∀ {g} ds, P g → P { g with state := { g.state with delays := ds } })
    (record : ∀ {g}, P g → P g.record) (advance : ∀ {g}, P g → P (Clock.advance g)) :
    TimedCongruence fun x _ => Preserves P x where
  ask f g r h k hg := by
    cases k
    exact hg
  bind hx hf g r h k hg := by
    rcases Run.bind_eq_some_iff.1 k with ⟨_, rfl, kx⟩ | ⟨a, m, kx, kf⟩
    · exact hx g _ h kx hg
    · exact hf a m r h kf (hx g _ m kx hg)
  piece hx _ _ _ k := alters (hx k)
  log c := .update fun {g} hg => alters ⟨.log c, .logged c⟩ hg
  schedule callback ticks scope := .update fun hg => delays _ hg
  outOfFuel g r h k _ := by cases k
  orElse {_ x _ f _} hx hf g r h k hg := by
    unfold Run.orElse at k
    cases e : x g with
    | none => rw [e] at k; cases k
    | some o =>
      obtain ⟨_ | _, m⟩ := o <;> rw [e] at k
      · exact hf _ m r h k (hx g _ m e hg)
      · cases k
        exact hx g _ _ e hg
  takeDue g r h k hg := by
    rw [Clock.takeDue_apply] at k
    cases k
    exact delays _ hg
  requeue ds := .update fun hg => delays _ hg
  age := .update fun hg => delays _ hg
  record := .update record
  advance := .update advance

end Preserves

end Tabletop
