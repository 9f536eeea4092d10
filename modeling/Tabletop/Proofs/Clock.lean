/-
# What the clock does next

One equation for every way `Tabletop.Play.Clock` goes on: firing a list of
delays fires the first one and then the rest (`fireAll_cons`), a drain with
nothing due is over (`drain_idle`), and any other drain is one scan and then a
drain of what that left (`drain_scan`).
-/

import Tabletop.Play.Clock

namespace Tabletop

/-- The waiting delays, in order. -/
abbrev Engine.queue (g : Engine) : List Delay := g.state.delays.toList

namespace Clock

/-- The due delays of the queue, in order. -/
def due (g : Engine) : List Delay := g.state.takeDue.1

/-- The engine without its due delays. -/
def withoutDue (g : Engine) : Engine := { g with state := g.state.takeDue.2 }

theorem due_eq (g : Engine) : due g = g.queue.filter (·.isDue) :=
  Series.toList_filter _ _

theorem queue_withoutDue (g : Engine) : (withoutDue g).queue = g.queue.filter (!·.isDue) :=
  Series.toList_filter _ _

/-- Without due delays nothing is taken out. -/
theorem withoutDue_of_due_eq_nil {g : Engine} (h : due g = []) : withoutDue g = g := by
  rw [due_eq, List.filter_eq_nil_iff] at h
  have e : g.state.delays.filter (!·.isDue) = g.state.delays := by
    rw [← Series.toList_inj, Series.toList_filter, List.filter_eq_self]
    simpa using h
  show { g with state := { g.state with delays := g.state.delays.filter (!·.isDue) } } = g
  rw [e]

theorem queue_requeue (rest : List Delay) (g : Engine) : (requeue rest g).queue = rest ++ g.queue :=
  State.delays_requeue _ _

theorem queue_schedule (callback : Callback) (ticks : Int) (scope : Scope) (g : Engine) :
    (schedule callback ticks scope g).queue = g.queue ++ [⟨max ticks 0, callback, scope⟩] :=
  Series.toList_push _ _

theorem takeDue_apply (g : Engine) : takeDue g = some (.ok (due g), withoutDue g) := rfl

variable {fire : Delay → Run Unit} {tick : Run Unit} {scans : Nat} {g : Engine}

/-- The first delay fires, and then the rest; if it fails, the rest goes back. -/
theorem fireAll_cons {d : Delay} {ds : List Delay} :
    fireAll fire (d :: ds) g =
      match fire d g with
      | none => none
      | some (.ok (), h) => fireAll fire ds h
      | some (.error fault, h) => some (.error fault, requeue ds h) := by
  show Run.andThen (Run.orElse (fire d) _) _ g = _
  unfold Run.andThen Run.orElse
  cases fire d g with
  | none => rfl
  | some r => obtain ⟨_ | _, h⟩ := r <;> rfl

theorem drain_idle (h : due g = []) : drain fire (scans + 1) g = some (.ok (), g) := by
  have e := takeDue_apply g
  rw [h, withoutDue_of_due_eq_nil h] at e
  exact Run.bind_apply_ok e

theorem drain_scan (h : due g ≠ []) :
    drain fire (scans + 1) g =
      (fireAll fire (due g) >>= fun _ => drain fire scans) (withoutDue g) := by
  obtain ⟨d, ds, hd⟩ := List.exists_cons_of_ne_nil h
  have e := takeDue_apply g
  rw [hd] at e ⊢
  exact Run.bind_apply_ok e

theorem step_apply :
    step fire tick scans g =
      (tick >>= fun _ => Run.update age >>= fun _ => drain fire scans) (advance g.record) := rfl

end Clock
end Tabletop
