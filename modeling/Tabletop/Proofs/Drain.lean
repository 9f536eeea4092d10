/-
# Drains: every due delay fires once, or goes back

A drain is a row of scans.  Each scan takes the due delays out of the queue and
fires them in order (`Fires`); it is complete if none of them fails.  A drain
ends well when a scan finds nothing due, and with a fault when a delay fails,
and then the delays behind it go back to the front of the queue (`Drains`).
That is all a drain does, whatever the callbacks do (`drain_iff`).

So the queue gains what the callbacks put into it and loses what is fired, each
delay once (`Drains.countP_queue`).  Callbacks that let no time pass only put
delays at the end of the queue (`Untimed`).
-/

import Mathlib.Algebra.Ring.Int.Defs
import Mathlib.Data.List.Count
import Tabletop.Proofs.Ledger
import Tabletop.Proofs.Untimed

namespace Tabletop
namespace Clock

/-- A firing of a delay, with the engine before and after. -/
structure Call where
  delay : Delay
  before : Engine
  after : Engine

/-- Delays fire one after another, and none of them fails. -/
inductive Fires (fire : Delay → Run Unit) : List Delay → Engine → List Call → Engine → Prop
  | nil {g} : Fires fire [] g [] g
  | cons {d ds g m calls h} : fire d g = some (.ok (), m) → Fires fire ds m calls h →
      Fires fire (d :: ds) g (⟨d, g, m⟩ :: calls) h

/-- Complete scans, one after another. -/
inductive Scans (fire : Delay → Run Unit) : Engine → List Call → Engine → Prop
  | nil {g} : Scans fire g [] g
  | cons {g scan m calls h} : due g ≠ [] → Fires fire (due g) (withoutDue g) scan m →
      Scans fire m calls h → Scans fire g (scan ++ calls) h

/-- How a drain goes: complete scans until nothing is due, or until a delay fails. -/
inductive Drains (fire : Delay → Run Unit) (g : Engine) :
    List Call → Except Fault Unit → Engine → Prop
  | done {calls h} : Scans fire g calls h → due h = [] → Drains fire g calls (.ok ()) h
  | failed {calls m fired d rest scan n fault left} : Scans fire g calls m →
      due m = fired ++ d :: rest → Fires fire fired (withoutDue m) scan n →
      fire d n = some (.error fault, left) →
      Drains fire g (calls ++ (scan ++ [⟨d, n, left⟩])) (.error fault) (requeue rest left)

variable {fire : Delay → Run Unit} {g h : Engine} {calls : List Call} {r : Except Fault Unit}

/-! ### What a drain does -/

theorem fireAll_eq_ok_iff {ds : List Delay} :
    fireAll fire ds g = some (.ok (), h) ↔ ∃ calls, Fires fire ds g calls h := by
  constructor
  · intro k
    induction ds generalizing g with
    | nil =>
      cases k
      exact ⟨[], .nil⟩
    | cons d ds ih =>
      rw [fireAll_cons] at k
      split at k
      · cases k
      · next m e =>
        obtain ⟨calls, f⟩ := ih k
        exact ⟨_, .cons e f⟩
      · cases k
  · rintro ⟨calls, f⟩
    induction f with
    | nil => rfl
    | cons e _ ih =>
      rw [fireAll_cons, e]
      exact ih

theorem fireAll_eq_error_iff {ds : List Delay} {fault : Fault} :
    fireAll fire ds g = some (.error fault, h) ↔
      ∃ fired d rest scan n left, ds = fired ++ d :: rest ∧ Fires fire fired g scan n ∧
        fire d n = some (.error fault, left) ∧ h = requeue rest left := by
  constructor
  · intro k
    induction ds generalizing g with
    | nil => cases k
    | cons d ds ih =>
      rw [fireAll_cons] at k
      split at k
      · cases k
      · next m e =>
        obtain ⟨fired, d', rest, scan, n, left, rfl, f, e', rfl⟩ := ih k
        exact ⟨d :: fired, d', rest, _, n, left, rfl, .cons e f, e', rfl⟩
      · next m e =>
        cases k
        exact ⟨[], d, ds, [], g, m, rfl, .nil, e, rfl⟩
  · rintro ⟨fired, d, rest, scan, n, left, rfl, f, e, rfl⟩
    induction f with
    | nil =>
      show fireAll fire (d :: rest) _ = _
      rw [fireAll_cons, e]
    | cons e' _ ih =>
      show fireAll fire (_ :: (_ ++ d :: rest)) _ = _
      rw [fireAll_cons, e']
      exact ih e

/-- One more complete scan at the start. -/
theorem Drains.scan {scan : List Call} {m : Engine} (hd : due g ≠ [])
    (f : Fires fire (due g) (withoutDue g) scan m) (k : Drains fire m calls r h) :
    Drains fire g (scan ++ calls) r h := by
  cases k with
  | done s hn => exact .done (.cons hd f s) hn
  | failed s hm f' e =>
    rw [← List.append_assoc]
    exact .failed (.cons hd f s) hm f' e

/-- A drain that goes on after complete scans goes on from where they lead. -/
theorem Scans.drain {m : Engine} (s : Scans fire g calls m) {scans : Nat}
    (k : drain fire scans m = some (r, h)) : ∃ scans, Clock.drain fire scans g = some (r, h) := by
  induction s with
  | nil => exact ⟨scans, k⟩
  | cons hd f _ ih =>
    obtain ⟨scans, k⟩ := ih k
    refine ⟨scans + 1, ?_⟩
    rw [drain_scan hd]
    exact (Run.bind_apply_ok (fireAll_eq_ok_iff.2 ⟨_, f⟩)).trans k

/-- **A drain does scans, and nothing else.** -/
theorem drain_iff :
    (∃ scans, drain fire scans g = some (r, h)) ↔ ∃ calls, Drains fire g calls r h := by
  constructor
  · rintro ⟨scans, k⟩
    induction scans generalizing g with
    | zero => cases k
    | succ scans ih =>
      by_cases hd : due g = []
      · rw [drain_idle hd] at k
        cases k
        exact ⟨[], .done .nil hd⟩
      · rw [drain_scan hd] at k
        rcases Run.bind_eq_some_iff.1 k with ⟨fault, rfl, e⟩ | ⟨_, m, e, k'⟩
        · obtain ⟨fired, d, rest, scan, n, left, hm, f, e', rfl⟩ := fireAll_eq_error_iff.1 e
          exact ⟨_, .failed .nil hm f e'⟩
        · obtain ⟨scan, f⟩ := fireAll_eq_ok_iff.1 e
          obtain ⟨calls, c⟩ := ih k'
          exact ⟨_, c.scan hd f⟩
  · rintro ⟨calls, k⟩
    cases k with
    | done s hn =>
      have idle : drain fire 1 h = some (.ok (), h) := drain_idle hn
      exact s.drain idle
    | @failed _ m _ _ rest _ _ fault left s hm f e =>
      have fails : drain fire 1 m = some (.error fault, requeue rest left) := by
        rw [drain_scan (by simp [hm])]
        exact Run.bind_apply_error (fireAll_eq_error_iff.2 ⟨_, _, _, _, _, _, hm, f, e, rfl⟩)
      exact s.drain fails

/-! ### What becomes of the queue -/

/-- How many more delays with a property a firing leaves in the queue than it finds. -/
def Call.gain (p : Delay → Bool) (c : Call) : Int :=
  c.after.queue.countP p - c.before.queue.countP p

/-- Firings that let no time pass, with what they schedule, in order. -/
inductive UntimedCalls : List Call → List Delay → Prop
  | nil : UntimedCalls [] []
  | cons {c ds calls es} : Untimed c.before ds c.after → UntimedCalls calls es →
      UntimedCalls (c :: calls) (ds ++ es)

theorem due_eq_filter (g : Engine) : due g = g.queue.filter (·.ticks ≤ 0) := due_eq g

theorem queue_withoutDue_eq_filter (g : Engine) :
    (withoutDue g).queue = g.queue.filter (0 < ·.ticks) := by
  rw [queue_withoutDue]
  refine List.filter_congr fun d _ => ?_
  rw [Delay.isDue, ← decide_not]
  exact decide_eq_decide.2 Int.not_le

/-- The due delays and the others make up the queue. -/
theorem countP_due (p : Delay → Bool) (g : Engine) :
    g.queue.countP p = (due g).countP p + (withoutDue g).queue.countP p := by
  rw [due_eq, queue_withoutDue]
  exact List.countP_eq_countP_filter_add g.queue p (·.isDue)

namespace Fires

variable {ds es : List Delay}

/-- The delays that fire are those given, each once and in order. -/
theorem delays_eq (f : Fires fire ds g calls h) : calls.map (·.delay) = ds := by
  induction f with
  | nil => rfl
  | cons _ _ ih => rw [List.map_cons, ih]

theorem countP_queue (f : Fires fire ds g calls h) (p : Delay → Bool) :
    (h.queue.countP p : Int) = g.queue.countP p + (calls.map (·.gain p)).sum := by
  induction f with
  | nil => simp
  | @cons d _ g m _ _ _ _ ih =>
    have gain : Call.gain p ⟨d, g, m⟩ = m.queue.countP p - g.queue.countP p := rfl
    rw [ih, List.map_cons, List.sum_cons, gain]
    omega

/-- Delays that let no time pass only add to the queue. -/
theorem queue_eq (f : Fires fire ds g calls h) (u : UntimedCalls calls es) :
    h.queue = g.queue ++ es := by
  induction f generalizing es with
  | nil =>
    cases u
    exact (List.append_nil _).symm
  | cons _ _ ih =>
    cases u with
    | cons v u => rw [ih u, v.queue_eq, List.append_assoc]

/-- Scripts that never call for time to pass let none pass. -/
theorem untimedCalls {fuel : Nat} (f : Fires (Delay.fire (runner fuel)) ds g calls h)
    (hu : ∀ c ∈ calls, ∃ o, c.delay.fire (untimedRunner fuel) c.before = some o) :
    ∃ es, UntimedCalls calls es := by
  induction f with
  | nil => exact ⟨[], .nil⟩
  | @cons d _ g m calls _ e _ ih =>
    obtain ⟨⟨r, k⟩, hk⟩ := hu ⟨d, g, m⟩ List.mem_cons_self
    obtain ⟨e', ds, u⟩ := untimedFire_agrees fuel d g r k hk
    rw [e] at e'
    cases e'
    obtain ⟨es, us⟩ := ih fun c hc => hu c (List.mem_cons_of_mem _ hc)
    exact ⟨ds ++ es, .cons u us⟩

end Fires

theorem Scans.countP_queue (s : Scans fire g calls h) (p : Delay → Bool) :
    (h.queue.countP p : Int) + (calls.map (·.delay)).countP p =
      g.queue.countP p + (calls.map (·.gain p)).sum := by
  induction s with
  | nil => simp
  | @cons g scan m calls h _ f _ ih =>
    have hf := f.countP_queue p
    have hd := countP_due p g
    simp only [List.map_append, List.countP_append, List.sum_append, f.delays_eq]
    omega

/-- The queue gains what the callbacks put into it, and loses what is fired. -/
theorem Drains.countP_queue (k : Drains fire g calls r h) (p : Delay → Bool) :
    (h.queue.countP p : Int) + (calls.map (·.delay)).countP p =
      g.queue.countP p + (calls.map (·.gain p)).sum := by
  cases k with
  | done s _ => exact s.countP_queue p
  | @failed calls m fired d rest scan n fault left s hm f e =>
    have hs := s.countP_queue p
    have hf := f.countP_queue p
    have hd := countP_due p m
    rw [hm, List.countP_append, List.countP_cons] at hd
    have gain : Call.gain p ⟨d, n, left⟩ = left.queue.countP p - n.queue.countP p := rfl
    simp only [queue_requeue, List.map_append, List.map_cons, List.map_nil, List.countP_append,
      List.countP_cons, List.countP_nil, List.sum_append, List.sum_cons, List.sum_nil, f.delays_eq,
      gain]
    omega

/-- **A drain loses, repeats and reorders nothing**, whatever the callbacks do.  It
is a row of scans, each of which takes out the due delays and fires them in
order.  When it ends well, nothing is due.  When a delay fails, the delays of its
scan that have not fired are in front of the queue that it left; if no callback
of the scan calls for time to pass, that queue is what was not due, followed by
what the callbacks scheduled.  The queue gains what the callbacks put into it,
and loses exactly what is fired; with the callbacks of a game, which may drain
again, every delay that was waiting or is scheduled has begun to fire or waits
still. -/
theorem drain_conserves (fire : Delay → Run Unit) (g h : Engine) (r : Except Fault Unit) :
    (∀ m, due m = m.queue.filter (·.ticks ≤ 0) ∧
      (withoutDue m).queue = m.queue.filter (0 < ·.ticks)) ∧
    ((∃ scans, drain fire scans g = some (r, h)) ↔ ∃ calls, Drains fire g calls r h) ∧
    ∀ calls, Drains fire g calls r h →
      (r = .ok () → ∀ d ∈ h.queue, 0 < d.ticks) ∧
      (∀ fault, r = .error fault → ∃ earlier m fired d rest scan n left,
        calls = earlier ++ (scan ++ [⟨d, n, left⟩]) ∧ Scans fire g earlier m ∧
        due m = fired ++ d :: rest ∧ Fires fire fired (withoutDue m) scan n ∧
        fire d n = some (.error fault, left) ∧
        h = requeue rest left ∧ h.queue = rest ++ left.queue ∧
        ∀ fuel, fire = Delay.fire (runner fuel) →
          (∀ c ∈ scan ++ [⟨d, n, left⟩],
            ∃ o, c.delay.fire (untimedRunner fuel) c.before = some o) →
          ∃ es ds, UntimedCalls scan es ∧ Untimed n ds left ∧
            left.queue = m.queue.filter (0 < ·.ticks) ++ (es ++ ds)) ∧
      (∀ p, (h.queue.countP p : Int) + (calls.map (·.delay)).countP p =
        g.queue.countP p + (calls.map (·.gain p)).sum) ∧
      ∀ fuel, fire = Delay.fire (runner fuel) →
        ∃ es, Timeline [] ⟨[], g⟩ es ⟨[], h⟩ ∧ ∀ q,
          waiting q h.queue + waiting q (es.flatMap (·.begins)) =
            waiting q g.queue + waiting q (es.flatMap (·.schedules)) := by
  refine ⟨fun m => ⟨due_eq_filter m, queue_withoutDue_eq_filter m⟩, drain_iff,
    fun calls k => ⟨?_, ?_, k.countP_queue, ?_⟩⟩
  · rintro rfl d hd
    cases k with
    | done _ hn =>
      rw [due_eq_filter, List.filter_eq_nil_iff] at hn
      simpa using hn d hd
  · rintro fault rfl
    cases k with
    | @failed earlier m fired d rest scan n _ left s hm f e =>
      refine ⟨earlier, m, fired, d, rest, scan, n, left, rfl, s, hm, f, e, rfl,
        queue_requeue rest left, ?_⟩
      rintro fuel rfl hu
      obtain ⟨es, us⟩ := f.untimedCalls fun c hc => hu c (List.mem_append_left _ hc)
      obtain ⟨⟨o, k⟩, hk⟩ := hu ⟨d, n, left⟩ (List.mem_append_right _ List.mem_cons_self)
      obtain ⟨e', ds, u⟩ := untimedFire_agrees fuel d n o k hk
      rw [e] at e'
      cases e'
      refine ⟨es, ds, us, u, ?_⟩
      rw [u.queue_eq, f.queue_eq us, queue_withoutDue_eq_filter, List.append_assoc]
  · rintro fuel rfl
    obtain ⟨scans, e⟩ := drain_iff.2 ⟨calls, k⟩
    obtain ⟨es, t⟩ := tracked_drain (Delay.fire_tracked fuel) scans [] g r h e
    refine ⟨es, t, fun q => ?_⟩
    have := t.waiting_eq (q := q)
    simp only [Moment.waiting_mk, waiting_nil, balance] at this
    omega

end Clock
end Tabletop
