/-
# What a rollback brings back

A clock step records the state, and a rollback brings a recorded state back.
The delays that running drains hold are no part of the state: when a callback
lets time pass while other delays of its drain have not fired, the recorded
state lacks these, and a rollback to it loses them (`frame_incomplete`).

A recorded state is complete (`Complete`) if its queue has every delay that
waits at that moment.  Exactly those are complete that are recorded while no
running drain holds a delay (`Operation.frame_complete_iff`).
-/

import Mathlib.Logic.Relation
import Tabletop.Proofs.Ledger
import Tabletop.Proofs.Reachable

namespace Tabletop

/-- The state an event records. -/
def Event.recorded? : Event → Option State
  | .ticked s _ => some s
  | _ => none

/-- The states a row of events records, the last one first. -/
def recorded (es : List Event) : List State := (es.filterMap (·.recorded?)).reverse

/-- The queue of a state recorded after a row of events has every delay that was
waiting before them or scheduled by them and has not begun to fire. -/
def Complete (g : Engine) (es : List Event) (s : State) : Prop :=
  ∀ q, waiting q g.queue + waiting q (es.flatMap (·.schedules)) ≤
    waiting q (es.flatMap (·.begins)) + waiting q s.delays.toList

variable {around : List Delay} {a b : Moment} {es fs : List Event}

theorem recorded_append (es fs : List Event) :
    recorded (es ++ fs) = recorded fs ++ recorded es := by
  simp [recorded]

/-! ### Frames -/

/-- What a stroke leaves of configuration and frames. -/
theorem Stroke.frames_eq {e : Event} (s : Stroke around a e b) :
    b.engine.config = a.engine.config ∧ b.engine.frames =
      (recorded [e] ++ a.engine.frames).take a.engine.config.revertDepth := by
  have same (g : Engine) : g.frames = g.frames.take g.config.revertDepth := by
    rw [Engine.frames, History.frames, List.take_take, Nat.min_self]
  cases s with
  | touch t => exact ⟨t.effect.keeps.config, t.effect.keeps.frames.trans (same _)⟩
  | tick => exact ⟨rfl, Engine.frames_record _⟩
  | schedule | age | take => exact ⟨rfl, same _⟩

/-- What is cut off below is cut off in the end. -/
theorem take_append_take {α : Type} (xs ys : List α) (n : Nat) :
    (xs ++ ys.take n).take n = (xs ++ ys).take n := by
  rw [List.take_append, List.take_append, List.take_take, Nat.min_eq_left (Nat.sub_le n xs.length)]

/-- **The frames after a timeline are the states it recorded, before those of the
start**, as many as the depth says. -/
theorem Timeline.frames_eq (t : Timeline around a es b) :
    b.engine.config = a.engine.config ∧ b.engine.frames =
      (recorded es ++ a.engine.frames).take a.engine.config.revertDepth := by
  induction t with
  | nil =>
    refine ⟨rfl, ?_⟩
    rw [Engine.frames, History.frames]
    exact (List.take_take ..).symm ▸ (Nat.min_self _).symm ▸ rfl
  | @cons _ _ _ _ e es s _ ih =>
    have step := s.frames_eq
    refine ⟨ih.1.trans step.1, ?_⟩
    rw [ih.2, step.1, step.2, take_append_take, ← List.append_assoc, ← recorded_append]
    rfl
  | @fired _ _ d _ _ _ _ es fs _ _ _ inner ih =>
    refine ⟨ih.1.trans inner.1, ?_⟩
    have begun : recorded (.begun d :: (es ++ fs)) = recorded fs ++ recorded es :=
      recorded_append es fs
    rw [begun, ih.2]
    dsimp only at inner ⊢
    rw [inner.1, inner.2, take_append_take, List.append_assoc]
  | @failed _ held d _ _ _ _ _ es fs _ _ _ inner ih =>
    refine ⟨ih.1.trans inner.1, ?_⟩
    have begun : recorded (.begun d :: (es ++ .returned held :: fs)) = recorded fs ++ recorded es :=
      recorded_append es (.returned held :: fs)
    have back (m : Engine) : (Clock.requeue held m).frames = m.frames ∧
        (Clock.requeue held m).config = m.config := ⟨rfl, rfl⟩
    rw [begun, ih.2]
    dsimp only at inner ⊢
    rw [(back _).1, (back _).2, inner.1, inner.2, take_append_take, List.append_assoc]

/-! ### Complete states -/

/-- What drains hold is what a recorded state lacks. -/
theorem Timeline.complete_iff {g h : Engine} {s : State} {held : List Delay}
    (t : Timeline [] ⟨[], g⟩ (es ++ .ticked s held :: fs) ⟨[], h⟩) :
    Complete g es s ↔ held = [] := by
  have lacks (q : Callback → Scope → Bool) : waiting q s.delays.toList + waiting q held =
      waiting q g.queue + balance q es := by
    rw [t.waiting_ticked, Moment.waiting_mk, waiting_nil, Int.zero_add, Int.zero_add]
  constructor
  · intro complete
    -- It is enough to count all delays, whatever they run.
    have all := complete fun _ _ => true
    have lack := lacks fun _ _ => true
    have length : waiting (fun _ _ => true) held = held.length := by simp [waiting, Delay.meets]
    have none : held.length = 0 := by
      unfold balance at lack
      omega
    exact List.length_eq_zero_iff.1 none
  · rintro rfl q
    have lack := lacks q
    rw [waiting_nil] at lack
    unfold balance at lack
    omega

/-- **A recorded state is complete exactly when no running drain holds a delay.**
Every outcome of an operation is a timeline; the states it records become the
frames, and each of them has what waits at that moment, except for the delays
that running drains have taken out and not fired. -/
theorem Operation.frame_complete_iff {op : Operation} {fuel : Nat} {g h : Engine}
    {r : Except Fault Unit} (k : op.run fuel g = some (r, h)) :
    ∃ es, Timeline [] ⟨[], g⟩ es ⟨[], h⟩ ∧
      h.frames = (recorded es ++ g.frames).take g.config.revertDepth ∧
      ∀ before s held after, es = before ++ .ticked s held :: after →
        (∀ q, waiting q s.delays.toList + waiting q held =
          waiting q g.queue + waiting q (before.flatMap (·.schedules)) -
            waiting q (before.flatMap (·.begins))) ∧
        (Complete g before s ↔ held = []) := by
  obtain ⟨es, t⟩ := op.tracked fuel [] _ _ _ k
  refine ⟨es, t, t.frames_eq.2, ?_⟩
  rintro before s held after rfl
  refine ⟨fun q => ?_, t.complete_iff⟩
  have := t.waiting_ticked (q := q)
  rw [Moment.waiting_mk, waiting_nil, balance] at this
  omega

/-- A due delay that lets a step pass. -/
def stepping : Delay :=
  ⟨0, .script ⟨"advance 1", .call "control_time" [.literal (.int 1)] [] []⟩, {}⟩

/-- A due delay that does nothing. -/
def idling : Delay :=
  ⟨0, .script ⟨"1 + 1", .call "add" [.literal (.int 1), .literal (.int 1)] [] []⟩, {}⟩

/-- An engine that has scheduled a delay that lets a step pass, and another one. -/
def crowded : Engine :=
  { registry := { knowsFunctions := true }
    config := { revertDepth := 5 }
    schema := (Schema.ofCatalog {}).toOption.getD {}
    state := { delays := .ofList [stepping, idling], dice := { seed := 0 } }
    history := .ofList [] }

theorem reachable_crowded : Reachable crowded := by
  have start : Engine.start crowded.config crowded.registry =
      .ok { crowded with state := .start 0 } := rfl
  have one : Reachable (Clock.schedule stepping.callback 0 {} { crowded with state := .start 0 }) :=
    .operate (.schedule stepping.callback 0 {}) 0 (.start start) (r := .ok ()) rfl
  exact .operate (.schedule idling.callback 0 {}) 0 one (r := .ok ()) rfl

/-- The states that the crowded engine records are complete when nothing is held. -/
theorem frame_complete_iff_crowded : ∃ h es, Operation.drain.run 2 crowded = some (.ok (), h) ∧
    Timeline [] ⟨[], crowded⟩ es ⟨[], h⟩ ∧
      ∀ before s held after, es = before ++ .ticked s held :: after →
        (Complete crowded before s ↔ held = []) := by
  have k : Operation.drain.run 2 crowded =
      some (.ok (), Clock.age (Clock.advance (Clock.withoutDue crowded).record)) := rfl
  obtain ⟨es, t, _, complete⟩ := Operation.frame_complete_iff k
  exact ⟨_, es, k, t, fun before s held after he => (complete before s held after he).2⟩

/-- **A recorded state can lack a delay that waits.**  Of two due delays the first
lets a step pass; the state recorded then has an empty queue, and a rollback to
it brings the second delay back neither as waiting nor as fired. -/
theorem frame_incomplete : Reachable crowded ∧ ∃ h s before after,
    Operation.drain.run 2 crowded = some (.ok (), h) ∧
      Timeline [] ⟨[], crowded⟩ (before ++ .ticked s [idling] :: after) ⟨[], h⟩ ∧
      h.frames = [s] ∧ ¬ Complete crowded before s ∧ (h.revert 1).2.queue = [] := by
  let taken := Clock.withoutDue crowded
  let stepped := Clock.age (Clock.advance taken.record)
  have first : stepping.fire (runner 2) taken = some (.ok (), stepped) := rfl
  have second : idling.fire (runner 2) stepped = some (.ok (), stepped) := rfl
  have inner : Timeline [idling] ⟨[], taken⟩ [.ticked taken.state [idling], .aged] ⟨[], stepped⟩ :=
    .cons .tick (.cons .age .nil)
  have last : Timeline [] ⟨[idling], stepped⟩ (.begun idling :: ([] ++ [])) ⟨[], stepped⟩ :=
    .fired second .nil .nil
  have whole : Timeline [] ⟨[], crowded⟩ (.taken [stepping, idling] :: .begun stepping ::
      ([.ticked taken.state [idling], .aged] ++ [.begun idling])) ⟨[], stepped⟩ :=
    .cons .take (.fired first inner last)
  refine ⟨reachable_crowded, stepped, taken.state, [.taken [stepping, idling], .begun stepping], _,
    rfl, whole, rfl, fun complete => ?_, rfl⟩
  have all := complete fun _ _ => true
  revert all
  decide

end Tabletop
