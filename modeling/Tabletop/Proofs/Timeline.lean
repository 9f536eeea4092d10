/-
# Timelines: what happens in a run, one thing after another

A drain takes due delays out of the queue and holds them while it fires them; a
callback may let time pass, and then another drain runs inside the first.  A
moment of a run is therefore the engine together with the delays that its drain
holds and has not fired yet; the drains around it hold more.

A timeline (`Timeline`) is a row of strokes (`Stroke`) and firings, with their
names as events.  A firing is what its callback does from where it begins to
where it ends, and has a timeline of its own inside it, around which the rest of
the drain is held.

Every run of a game is a timeline (`runner_tracked`, `Clock.tracked_pass`).  So a law
of strokes is a law of runs, and the strokes are few.  More is known of the row of
events of a run than that it is a timeline: a run that ends well has come to the
end of every clock step, and has put nothing back.  Such laws (`RowLaw`) hold of
runs as they hold of the parts of a run (`TrackedBy`, `runner_trackedBy`).
-/

import Tabletop.Proofs.Clock
import Tabletop.Proofs.Congruence

namespace Tabletop

/-- What happens at a moment of a run. -/
inductive Event
  /-- Entities, dice, log or compiled texts change. -/
  | touched
  /-- A delay joins the queue. -/
  | scheduled (d : Delay)
  /-- The state is recorded and the clock moves on, while drains hold delays. -/
  | ticked (before : State) (held : List Delay)
  /-- Every delay in the queue is one tick older. -/
  | aged
  /-- A drain takes the due delays out of the queue. -/
  | taken (due : List Delay)
  /-- A delay that was taken out begins to fire. -/
  | begun (d : Delay)
  /-- A drain that failed puts the rest of what it held back. -/
  | returned (rest : List Delay)

/-- An engine at work, with the delays that its drain has taken out of the queue
and not fired yet. -/
structure Moment where
  held : List Delay
  engine : Engine

/-- One thing happens, with delays held by the drains around. -/
inductive Stroke (around : List Delay) : Moment → Event → Moment → Prop
  | touch {g h} : Touch g h → Stroke around ⟨[], g⟩ .touched ⟨[], h⟩
  | schedule {g} (callback : Callback) (ticks : Int) (scope : Scope) :
      Stroke around ⟨[], g⟩ (.scheduled ⟨max ticks 0, callback, scope⟩)
        ⟨[], Clock.schedule callback ticks scope g⟩
  | tick {g} : Stroke around ⟨[], g⟩ (.ticked g.state around) ⟨[], Clock.advance g.record⟩
  | age {g} : Stroke around ⟨[], g⟩ .aged ⟨[], Clock.age g⟩
  | take {g} : Stroke around ⟨[], g⟩ (.taken (Clock.due g)) ⟨Clock.due g, Clock.withoutDue g⟩

/-- Things happen one after another, with delays held by the drains around. -/
inductive Timeline : List Delay → Moment → List Event → Moment → Prop
  | nil {around a} : Timeline around a [] a
  | cons {around a b c e es} : Stroke around a e b → Timeline around b es c →
      Timeline around a (e :: es) c
  /-- A delay fires, and the rest of the drain goes on. -/
  | fired {around held d g m c fuel es fs} : d.fire (runner fuel) g = some (.ok (), m) →
      Timeline (held ++ around) ⟨[], g⟩ es ⟨[], m⟩ → Timeline around ⟨held, m⟩ fs c →
      Timeline around ⟨d :: held, g⟩ (.begun d :: (es ++ fs)) c
  /-- A delay fails, and the rest of the drain goes back to the queue. -/
  | failed {around held d g m c fuel fault es fs} :
      d.fire (runner fuel) g = some (.error fault, m) →
      Timeline (held ++ around) ⟨[], g⟩ es ⟨[], m⟩ →
      Timeline around ⟨[], Clock.requeue held m⟩ fs c →
      Timeline around ⟨d :: held, g⟩ (.begun d :: (es ++ .returned held :: fs)) c

namespace Timeline

variable {around : List Delay} {a b c : Moment} {es fs : List Event}

theorem single {e : Event} (h : Stroke around a e b) : Timeline around a [e] b := .cons h .nil

theorem append (h : Timeline around a es b) (k : Timeline around b fs c) :
    Timeline around a (es ++ fs) c := by
  induction h with
  | nil => exact k
  | cons s _ ih => exact .cons s (ih k)
  | fired e inner _ _ ih =>
    rw [List.cons_append, List.append_assoc]
    exact .fired e inner (ih k)
  | failed e inner _ _ ih =>
    rw [List.cons_append, List.append_assoc, List.cons_append]
    exact .failed e inner (ih k)

/-- **A law of strokes is a law of timelines**, if delays can go back to the queue. -/
theorem preserves {P : Engine → Prop}
    (stroke : ∀ {around a e b}, Stroke around a e b → P a.engine → P b.engine)
    (requeue : ∀ {rest g}, P g → P (Clock.requeue rest g))
    (t : Timeline around a es b) : P a.engine → P b.engine := by
  induction t with
  | nil => exact id
  | cons s _ ih => exact fun ha => ih (stroke s ha)
  | fired _ _ _ inner ih => exact fun ha => ih (inner ha)
  | failed _ _ _ inner ih => exact fun ha => ih (requeue (inner ha))

end Timeline

/-! ### Rows of runs -/

/-- A law of the rows of events of runs, which are put together as the runs are.  The
first argument says whether the run ends well. -/
structure RowLaw (A : Bool → List Event → Prop) : Prop where
  nil : ∀ ok, A ok []
  touched : A true [.touched]
  scheduled : ∀ d, A true [.scheduled d]
  taken : ∀ due, A true [.taken due]
  append : ∀ {ok es fs}, A true es → A ok fs → A ok (es ++ fs)
  /-- A clock step ages the queue when its tick rule has ended well. -/
  aged : ∀ {ok es fs s held}, A true es → A ok fs →
    A ok (.ticked s held :: (es ++ .aged :: fs))
  /-- A clock step is broken off when its tick rule fails. -/
  broken : ∀ {es s held}, A false es → A false (.ticked s held :: es)
  fired : ∀ {ok es fs d}, A true es → A ok fs → A ok (.begun d :: (es ++ fs))
  failed : ∀ {es d held}, A false es → A false (.begun d :: (es ++ [.returned held]))

theorem RowLaw.trivial : RowLaw fun _ _ => True := by
  constructor <;> intros <;> exact .intro

/-- A run all of whose outcomes have timelines whose rows keep a law, whatever is held
around it. -/
def TrackedBy (A : Bool → List Event → Prop) {α : Type} (x : Run α) : Prop :=
  ∀ around g r h, x g = some (r, h) →
    ∃ es, Timeline around ⟨[], g⟩ es ⟨[], h⟩ ∧ A r.isOk es

namespace TrackedBy

variable {A : Bool → List Event → Prop} {α β : Type}

theorem ask (hA : RowLaw A) (f : Engine → Except Fault α) : TrackedBy A (Run.ask f) := by
  intro around g r h e
  cases e
  exact ⟨[], .nil, hA.nil _⟩

theorem outOfFuel : TrackedBy A (Run.outOfFuel : Run α) := by
  intro around g r h e
  cases e

theorem bind (hA : RowLaw A) {x : Run α} {f : α → Run β} (hx : TrackedBy A x)
    (hf : ∀ a, TrackedBy A (f a)) : TrackedBy A (x >>= f) := by
  intro around g r h e
  rcases Run.bind_eq_some_iff.1 e with ⟨fault, rfl, ex⟩ | ⟨a, m, ex, ef⟩
  · exact hx around g _ h ex
  · obtain ⟨es, t, row⟩ := hx around g _ m ex
    obtain ⟨fs, t', row'⟩ := hf a around m r h ef
    exact ⟨es ++ fs, t.append t', hA.append row row'⟩

theorem piece (hA : RowLaw A) {x : Run α} (hx : ∀ {g r h}, x g = some (r, h) → Touch g h) :
    TrackedBy A x :=
  fun _ _ _ _ e => ⟨[.touched], .single (.touch (hx e)), hA.append hA.touched (hA.nil _)⟩

theorem update {f : Engine → Engine} {name : Event} (row : A true [name])
    (hf : ∀ around g, Stroke around ⟨[], g⟩ name ⟨[], f g⟩) : TrackedBy A (Run.update f) := by
  intro around g r h e
  cases e
  exact ⟨[name], .single (hf around g), row⟩

end TrackedBy

/-- Timelines whose rows keep a law are put together like runs. -/
theorem trackedBy_congruence {A : Bool → List Event → Prop} (hA : RowLaw A) :
    Congruence fun x _ => TrackedBy A x where
  ask := .ask hA
  bind := .bind hA
  piece hx := .piece hA fun k => (hx k).touch
  log c := .update hA.touched fun _ _ => .touch (.log c)
  schedule callback ticks scope := .update (hA.scheduled _) fun _ _ => .schedule callback ticks scope

/-! ### Time -/

namespace Clock

variable {A : Bool → List Event → Prop} {fuel : Nat} {tick : Run Unit}

/-- Firing delays uses up those that are held for it. -/
theorem timeline_fireAll (hA : RowLaw A) (hf : ∀ d : Delay, TrackedBy A (d.fire (runner fuel)))
    (ds around : List Delay) {g r h}
    (e : fireAll (Delay.fire (runner fuel)) ds g = some (r, h)) :
    ∃ es, Timeline around ⟨ds, g⟩ es ⟨[], h⟩ ∧ A r.isOk es := by
  induction ds generalizing g with
  | nil =>
    cases e
    exact ⟨[], .nil, hA.nil _⟩
  | cons d ds ih =>
    rw [fireAll_cons] at e
    split at e
    · cases e
    · next m e' =>
      obtain ⟨es, t, row⟩ := hf d (ds ++ around) _ _ _ e'
      obtain ⟨fs, t', row'⟩ := ih e
      exact ⟨_, .fired e' t t', hA.fired row row'⟩
    · next fault m e' =>
      cases e
      obtain ⟨es, t, row⟩ := hf d (ds ++ around) _ _ _ e'
      exact ⟨_, .failed e' t .nil, hA.failed row⟩

theorem trackedBy_drain (hA : RowLaw A) (hf : ∀ d : Delay, TrackedBy A (d.fire (runner fuel)))
    (scans : Nat) : TrackedBy A (drain (Delay.fire (runner fuel)) scans) := by
  induction scans with
  | zero => exact .outOfFuel
  | succ scans ih =>
    intro around g r h e
    by_cases hd : due g = []
    · rw [drain_idle hd] at e
      cases e
      exact ⟨[], .nil, hA.nil _⟩
    · rw [drain_scan hd] at e
      rcases Run.bind_eq_some_iff.1 e with ⟨fault, rfl, e'⟩ | ⟨_, m, e', ed⟩
      · obtain ⟨es, t, row⟩ := timeline_fireAll hA hf _ around e'
        exact ⟨_, .cons .take t, hA.append (hA.taken _) row⟩
      · obtain ⟨es, t, row⟩ := timeline_fireAll hA hf _ around e'
        obtain ⟨fs, t', row'⟩ := ih around m r h ed
        exact ⟨_, .cons .take (t.append t'), hA.append (hA.taken _) (hA.append row row')⟩

/-- A clock step comes to age the queue, or its tick rule fails. -/
theorem trackedBy_step (hA : RowLaw A) (hf : ∀ d : Delay, TrackedBy A (d.fire (runner fuel)))
    (ht : TrackedBy A tick) (scans : Nat) :
    TrackedBy A (step (Delay.fire (runner fuel)) tick scans) := by
  intro around g r h e
  rw [step_apply] at e
  rcases Run.bind_eq_some_iff.1 e with ⟨fault, rfl, e'⟩ | ⟨_, m, e', ed⟩
  · obtain ⟨es, t, row⟩ := ht around _ _ _ e'
    exact ⟨_, .cons .tick t, hA.broken row⟩
  · obtain ⟨es, t, row⟩ := ht around _ _ _ e'
    obtain ⟨fs, t', row'⟩ := trackedBy_drain hA hf scans around (age m) r h ed
    exact ⟨_, .cons .tick (t.append (.cons .age t')), hA.aged row row'⟩

theorem trackedBy_steps (hA : RowLaw A) (hf : ∀ d : Delay, TrackedBy A (d.fire (runner fuel)))
    (ht : TrackedBy A tick) (scans n : Nat) :
    TrackedBy A (steps (Delay.fire (runner fuel)) tick scans n) := by
  induction n with
  | zero => exact TrackedBy.ask hA fun _ => .ok ()
  | succ n ih => exact .bind hA (trackedBy_step hA hf ht scans) fun _ => ih

theorem trackedBy_pass (hA : RowLaw A) (hf : ∀ d : Delay, TrackedBy A (d.fire (runner fuel)))
    (ht : TrackedBy A tick) (scans : Nat) (n : Int) :
    TrackedBy A (pass (Delay.fire (runner fuel)) tick scans n) :=
  .bind hA (trackedBy_drain hA hf scans) fun _ => trackedBy_steps hA hf ht scans n.toNat

end Clock

/-! ### Games -/

section

variable {A : Bool → List Event → Prop} (hA : RowLaw A)

include hA

/-- What a script can set going has timelines whose rows keep every law. -/
theorem powers_trackedBy (fuel : Nat) :
    (powers fuel).Related (fun x _ => TrackedBy A x) (powers fuel) := by
  have hR := trackedBy_congruence hA
  induction fuel with
  | zero =>
    exact
      { test := fun _ => .outOfFuel
        perform := fun _ _ _ => .outOfFuel
        pass := fun _ => .outOfFuel }
  | succ fuel ih =>
    have hrun := Interpreter.run_related hR ih
    exact
      { test := Move.test_related hR hrun
        perform := Move.perform_related hR hrun
        pass := Clock.trackedBy_pass hA (Delay.fire_related hR hrun)
          (Move.tickRule_related hR hrun) fuel }

/-- **Scripts have timelines whose rows keep every law.** -/
theorem runner_trackedBy (fuel : Nat) (s : Script) :
    Lifted (fun x _ => TrackedBy A x) (runner fuel s) (runner fuel s) :=
  Interpreter.run_related (trackedBy_congruence hA) (powers_trackedBy hA fuel) s

/-- A callback has timelines whose rows keep every law. -/
theorem Delay.fire_trackedBy (fuel : Nat) (d : Delay) : TrackedBy A (d.fire (runner fuel)) :=
  Delay.fire_related (trackedBy_congruence hA) (runner_trackedBy hA fuel) d

/-- The tick rule has timelines whose rows keep every law. -/
theorem Move.tickRule_trackedBy (fuel : Nat) : TrackedBy A (Move.tickRule (runner fuel)) :=
  Move.tickRule_related (trackedBy_congruence hA) (runner_trackedBy hA fuel)

/-- Time that passes has timelines whose rows keep every law. -/
theorem Game.pass_trackedBy (fuel : Nat) (n : Int) : TrackedBy A (Game.pass fuel n) :=
  Clock.trackedBy_pass hA (Delay.fire_trackedBy hA fuel) (Move.tickRule_trackedBy hA fuel) fuel n

end

/-! ### Timelines alone -/

/-- A run all of whose outcomes have timelines, whatever is held around it. -/
def Tracked {α : Type} (x : Run α) : Prop :=
  ∀ around g r h, x g = some (r, h) → ∃ es, Timeline around ⟨[], g⟩ es ⟨[], h⟩

/-- A timeline whose row keeps no law in particular. -/
theorem tracked_iff {α : Type} {x : Run α} : Tracked x ↔ TrackedBy (fun _ _ => True) x := by
  constructor
  · intro hx around g r h e
    obtain ⟨es, t⟩ := hx around g r h e
    exact ⟨es, t, .intro⟩
  · intro hx around g r h e
    obtain ⟨es, t, _⟩ := hx around g r h e
    exact ⟨es, t⟩

namespace Tracked

variable {α β : Type}

theorem ask (f : Engine → Except Fault α) : Tracked (Run.ask f) :=
  tracked_iff.2 (.ask .trivial f)

theorem bind {x : Run α} {f : α → Run β} (hx : Tracked x) (hf : ∀ a, Tracked (f a)) :
    Tracked (x >>= f) :=
  tracked_iff.2 (.bind .trivial (tracked_iff.1 hx) fun a => tracked_iff.1 (hf a))

theorem piece {x : Run α} (hx : ∀ {g r h}, x g = some (r, h) → Touch g h) : Tracked x :=
  tracked_iff.2 (.piece .trivial hx)

theorem update {f : Engine → Engine} {name : Event}
    (hf : ∀ around g, Stroke around ⟨[], g⟩ name ⟨[], f g⟩) : Tracked (Run.update f) :=
  tracked_iff.2 (.update .intro hf)

end Tracked

/-- Timelines are put together like runs. -/
theorem tracked_congruence : Congruence fun x _ => Tracked x where
  ask := .ask
  bind := .bind
  piece hx := .piece fun k => (hx k).touch
  log c := .update fun _ _ => .touch (.log c)
  schedule callback ticks scope := .update fun _ _ => .schedule callback ticks scope

namespace Clock

variable {fuel : Nat} {tick : Run Unit}

theorem tracked_drain (hf : ∀ d : Delay, Tracked (d.fire (runner fuel))) (scans : Nat) :
    Tracked (drain (Delay.fire (runner fuel)) scans) :=
  tracked_iff.2 (trackedBy_drain .trivial (fun d => tracked_iff.1 (hf d)) scans)

theorem tracked_pass (hf : ∀ d : Delay, Tracked (d.fire (runner fuel))) (ht : Tracked tick)
    (scans : Nat) (n : Int) : Tracked (pass (Delay.fire (runner fuel)) tick scans n) :=
  tracked_iff.2 (trackedBy_pass .trivial (fun d => tracked_iff.1 (hf d)) (tracked_iff.1 ht) scans n)

end Clock

/-- Scripts have timelines. -/
theorem runner_tracked (fuel : Nat) (s : Script) : Lifted (fun x _ => Tracked x) (runner fuel s)
    (runner fuel s) := fun scope => tracked_iff.2 (runner_trackedBy .trivial fuel s scope)

/-- Callbacks have timelines. -/
theorem Delay.fire_tracked (fuel : Nat) (d : Delay) : Tracked (d.fire (runner fuel)) :=
  tracked_iff.2 (Delay.fire_trackedBy .trivial fuel d)

/-- The tick rule has timelines. -/
theorem Move.tickRule_tracked (fuel : Nat) : Tracked (Move.tickRule (runner fuel)) :=
  tracked_iff.2 (Move.tickRule_trackedBy .trivial fuel)

end Tabletop
