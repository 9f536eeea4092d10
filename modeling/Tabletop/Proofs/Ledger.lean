/-
# The ledger of waiting delays

A delay waits from when it is scheduled until it begins to fire, in the queue or
held by a drain.  Time passing makes it older but leaves what it runs and in
which scope, so the delays that wait are counted by a property of these two
(`waiting`).  Along a timeline the count goes up with every delay scheduled and
down with every delay that begins to fire, and nothing else changes it
(`Timeline.waiting_eq`), however deep drains are inside drains.

The same holds up to every clock step (`Timeline.waiting_ticked`): what the
recorded state has in its queue, together with what all running drains hold, is
everything that waits.
-/

import Tabletop.Proofs.Effect
import Tabletop.Proofs.Timeline

namespace Tabletop

/-- A property of what a delay runs and in which scope. -/
def Delay.meets (q : Callback → Scope → Bool) (d : Delay) : Bool := q d.callback d.scope

/-- How many delays of a list have a property. -/
def waiting (q : Callback → Scope → Bool) (ds : List Delay) : Int := ds.countP (·.meets q)

/-- How many delays with a property wait at a moment, in the queue or held by its drain. -/
def Moment.waiting (q : Callback → Scope → Bool) (a : Moment) : Int :=
  Tabletop.waiting q a.held + Tabletop.waiting q a.engine.queue

/-- The delay an event schedules. -/
def Event.schedules : Event → List Delay
  | .scheduled d => [d]
  | _ => []

/-- The delay that begins to fire with an event. -/
def Event.begins : Event → List Delay
  | .begun d => [d]
  | _ => []

/-- How many more delays wait after a row of events than before it. -/
def balance (q : Callback → Scope → Bool) (es : List Event) : Int :=
  waiting q (es.flatMap (·.schedules)) - waiting q (es.flatMap (·.begins))

variable {q : Callback → Scope → Bool} {around : List Delay} {a b : Moment} {es fs : List Event}

@[simp]
theorem waiting_nil : waiting q [] = 0 := rfl

@[simp]
theorem waiting_append (ds ds' : List Delay) :
    waiting q (ds ++ ds') = waiting q ds + waiting q ds' := by
  simp [waiting]

theorem waiting_cons (d : Delay) (ds : List Delay) :
    waiting q (d :: ds) = waiting q [d] + waiting q ds := waiting_append [d] ds

theorem Moment.waiting_mk (held : List Delay) (g : Engine) :
    Moment.waiting q ⟨held, g⟩ = Tabletop.waiting q held + Tabletop.waiting q g.queue := rfl

theorem balance_append (es fs : List Event) :
    balance q (es ++ fs) = balance q es + balance q fs := by
  simp only [balance, List.flatMap_append, waiting_append]
  omega

theorem balance_cons (e : Event) (es : List Event) :
    balance q (e :: es) = balance q [e] + balance q es := balance_append [e] es

theorem balance_scheduled (d : Delay) : balance q [.scheduled d] = waiting q [d] := by
  simp [balance, Event.schedules, Event.begins]

theorem balance_begun (d : Delay) : balance q [.begun d] = - waiting q [d] := by
  simp [balance, Event.schedules, Event.begins]

theorem balance_returned (rest : List Delay) : balance q [.returned rest] = 0 := rfl

/-- What is due and what is not make up what waits. -/
theorem waiting_due (g : Engine) :
    waiting q (Clock.due g) + waiting q (Clock.withoutDue g).queue = waiting q g.queue := by
  rw [Clock.due_eq, Clock.queue_withoutDue]
  have := List.countP_eq_countP_filter_add g.queue (·.meets q) (·.isDue)
  unfold waiting
  omega

/-- Growing older changes nothing that counts. -/
theorem waiting_age (g : Engine) : waiting q (Clock.age g).queue = waiting q g.queue := by
  have h : (Clock.age g).queue = g.queue.map Delay.age := Series.toList_map _ _
  rw [h, waiting, List.countP_map]
  rfl

/-- A stroke changes how many delays wait by what it schedules. -/
theorem Stroke.waiting_eq {e : Event} (s : Stroke around a e b) :
    b.waiting q = a.waiting q + balance q [e] := by
  cases s with
  | @touch g h t =>
    have same : h.queue = g.queue := congrArg Series.toList t.effect.keeps.delays
    rw [Moment.waiting_mk, same]
    exact (Int.add_zero _).symm
  | schedule callback ticks scope =>
    rw [Moment.waiting_mk, Clock.queue_schedule, waiting_append, balance_scheduled, ← Int.add_assoc]
    rfl
  | tick => exact (Int.add_zero _).symm
  | age =>
    rw [Moment.waiting_mk, waiting_age]
    exact (Int.add_zero _).symm
  | take =>
    rw [Moment.waiting_mk, waiting_due]
    exact (Int.add_zero _).symm.trans (by rw [Moment.waiting_mk, waiting_nil, Int.zero_add]; rfl)

/-- **Along a timeline, what waits changes by what is scheduled and what begins.** -/
theorem Timeline.waiting_eq (t : Timeline around a es b) :
    b.waiting q = a.waiting q + balance q es := by
  induction t with
  | nil => exact (Int.add_zero _).symm
  | @cons _ _ _ _ e es s _ ih => rw [ih, s.waiting_eq, balance_cons e es, Int.add_assoc]
  | @fired _ held d g _ _ _ es fs _ _ _ inner ih =>
    simp only [Moment.waiting_mk, waiting_nil] at inner ih ⊢
    rw [ih, balance_cons, balance_append, balance_begun, waiting_cons d held]
    omega
  | @failed _ held d g _ _ _ _ es fs _ _ _ inner ih =>
    simp only [Moment.waiting_mk, waiting_nil, Clock.queue_requeue, waiting_append] at inner ih ⊢
    rw [ih, balance_cons, balance_append, balance_cons (.returned held), balance_begun,
      balance_returned, waiting_cons d held]
    omega

/-! ### Up to a clock step -/

/-- At every clock step of a row of events, the recorded queue and what drains hold
are as many as wait, with a number of them waiting at the start. -/
def Accounted (q : Callback → Scope → Bool) : Int → List Event → Prop
  | _, [] => True
  | n, e :: es => (∀ s held, e = .ticked s held → waiting q s.delays.toList + waiting q held = n) ∧
      Accounted q (n + balance q [e]) es

theorem accounted_append {n : Int} : Accounted q n (es ++ fs) ↔
    Accounted q n es ∧ Accounted q (n + balance q es) fs := by
  induction es generalizing n with
  | nil =>
    have h : n + balance q [] = n := Int.add_zero n
    rw [h]
    exact (and_iff_right trivial).symm
  | cons e es ih =>
    rw [List.cons_append, Accounted, Accounted, ih, balance_cons e es, Int.add_assoc, and_assoc]

/-- An event that is no clock step accounts for nothing. -/
theorem accounted_cons {n : Int} {e : Event} (he : ∀ s held, e ≠ .ticked s held) :
    Accounted q n (e :: es) ↔ Accounted q (n + balance q [e]) es :=
  and_iff_right fun s held h => absurd h (he s held)

theorem Timeline.accounted (t : Timeline around a es b) :
    Accounted q (waiting q around + a.waiting q) es := by
  induction t with
  | nil => trivial
  | @cons around a b _ e es s t ih =>
    refine ⟨fun before held he => ?_, ?_⟩
    · subst he
      cases s
      rw [Moment.waiting_mk, waiting_nil, Int.zero_add, Int.add_comm]
    · rw [Int.add_assoc, ← s.waiting_eq]
      exact ih
  | @fired around held d g m _ _ es fs _ inner _ ihInner ih =>
    -- Inside the firing, what is left of the drain is held around.
    have after := inner.waiting_eq (q := q)
    simp only [Moment.waiting_mk, waiting_nil, waiting_append] at after ihInner ih ⊢
    rw [accounted_cons (by simp), accounted_append, balance_begun, waiting_cons d held]
    constructor
    · convert ihInner using 1
      omega
    · convert ih using 1
      omega
  | @failed around held d g m _ _ _ es fs _ inner _ ihInner ih =>
    have after := inner.waiting_eq (q := q)
    simp only [Moment.waiting_mk, waiting_nil, waiting_append, Clock.queue_requeue]
      at after ihInner ih ⊢
    rw [accounted_cons (by simp), accounted_append, accounted_cons (by simp), balance_begun,
      balance_returned, waiting_cons d held]
    constructor
    · convert ihInner using 1
      omega
    · convert ih using 1
      omega

/-- **At a clock step, the recorded queue and what drains hold are all that waits.** -/
theorem Timeline.waiting_ticked {s : State} {held : List Delay}
    (t : Timeline around a (es ++ .ticked s held :: fs) b) :
    waiting q s.delays.toList + waiting q held =
      waiting q around + a.waiting q + balance q es :=
  (accounted_append.1 t.accounted).2.1 s held rfl

end Tabletop
