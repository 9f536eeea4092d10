/-
# Delays grow older with the clock

A clock step moves the clock, runs the tick rule, and makes every delay in the
queue one tick older.  A delay whose ticks have not run out is in the queue all
the time, so the ticks that it has lost are the agings of the row of events
(`Register.AgedFrom.follow`), while the clock is on by the clock steps.

The two are the same when time has passed well.  When a tick rule fails, the
clock has moved and the queue has not aged: the step is unfinished, and every
delay that waits is one tick late from then on (`Game.pass_drift`,
`late_for_good`).
-/

import Tabletop.Proofs.Reachable
import Tabletop.Proofs.Register

namespace Tabletop

/-- The delay with so many ticks fewer. -/
def Delay.less (d : Delay) (n : Nat) : Delay := { d with ticks := d.ticks - n }

theorem Delay.less_zero (d : Delay) : d.less 0 = d := by
  show { d with ticks := d.ticks - 0 } = d
  rw [Int.sub_zero]

theorem Delay.less_less (d : Delay) (m n : Nat) : (d.less m).less n = d.less (m + n) := by
  have ticks : d.ticks - m - n = d.ticks - (m + n : Nat) := by omega
  show ({ d with ticks := d.ticks - m - n } : Delay) = { d with ticks := _ }
  rw [ticks]

/-- A delay whose counter is not negative grows older by one tick exactly. -/
theorem Delay.age_eq_less {d : Delay} (h : 0 ≤ d.ticks) : d.age = d.less 1 := by
  have above : Integer.least < d.ticks := Int.lt_of_lt_of_le (by decide) h
  rw [age, Integer.pred_eq_sub_one above]
  rfl

/-- A delay that is not due has lost one tick more when it is older. -/
theorem Delay.age_less {d : Delay} {n : Nat} (h : 0 < (d.less n).ticks) :
    (d.less n).age = d.less (n + 1) := by
  rw [age_eq_less (Int.le_of_lt h), less_less]

/-- A delay that is due stays due. -/
theorem Delay.age_ticks_le {d : Delay} (h : 0 < d.age.ticks) : 0 < d.ticks := by
  have : d.age.ticks = max (d.ticks - 1) Integer.least := rfl
  rw [this, Integer.least] at h
  omega

namespace Register

variable {g : Engine} {s : Register}

/-- What drains hold is due, and a numbered ticket in the queue that is not due has lost
as many ticks as the queue has aged. -/
structure AgedFrom (g : Engine) (s : Register) : Prop where
  held : ∀ t ∈ s.held, t.delay.ticks ≤ 0
  queue : ∀ t ∈ s.queue, ∀ i, t.number = some i → 0 < t.delay.ticks →
    ∃ d, g.queue[i]? = some d ∧ t.delay = d.less s.agings

namespace AgedFrom

theorem opening (g : Engine) : AgedFrom g (opening g) where
  held t ht := nomatch ht
  queue t ht i hi _ := by
    obtain ⟨j, hj, hd⟩ := mem_opening.1 ht
    rw [hi] at hj
    cases hj
    exact ⟨t.delay, hd, (Delay.less_zero _).symm⟩

/-- Entering an event keeps the tickets in step. -/
theorem enter (h : AgedFrom g s) (e : Event) : AgedFrom g (s.enter e) := by
  cases e with
  | touched => exact h
  | ticked before held => exact ⟨h.held, h.queue⟩
  | scheduled d =>
    refine ⟨h.held, fun t ht i hi => ?_⟩
    rcases List.mem_append.1 ht with ht | ht
    · exact h.queue t ht i hi
    · cases List.mem_singleton.1 ht
      cases hi
  | aged =>
    refine ⟨h.held, fun t ht i hi waits => ?_⟩
    obtain ⟨t, hq, rfl⟩ := List.mem_map.1 ht
    have waited := Delay.age_ticks_le waits
    obtain ⟨d, hd, ht⟩ := h.queue t hq i hi waited
    refine ⟨d, hd, ?_⟩
    show t.delay.age = _
    rw [ht] at waited ⊢
    exact Delay.age_less waited
  | taken due =>
    refine ⟨fun t ht => ?_, fun t ht => h.queue t (List.mem_of_mem_filter ht)⟩
    rcases List.mem_append.1 ht with ht | ht
    · have := (List.mem_filter.1 ht).2
      simpa [Ticket.isDue, Delay.isDue] using this
    · exact h.held t ht
  | begun d => exact ⟨fun t ht => h.held t (List.mem_of_mem_tail ht), h.queue⟩
  | returned rest =>
    refine ⟨fun t ht => h.held t (List.mem_of_mem_drop ht), fun t ht i hi waits => ?_⟩
    rcases List.mem_append.1 ht with ht | ht
    · -- What goes back is due.
      have := h.held t (List.mem_of_mem_take ht)
      omega
    · exact h.queue t ht i hi waits

/-- **The ticks a waiting delay has lost are the agings of the row.** -/
theorem follow (h : AgedFrom g s) (es : List Event) : AgedFrom g (s.follow es) := by
  induction es generalizing s with
  | nil => exact h
  | cons e es ih => exact ih (h.enter e)

end AgedFrom

end Register

/-- **Delays and the clock drift apart by the unfinished clock steps, and by nothing
else.**  However time passes, whether it ends well or not, a delay that was in the
queue and waits still has lost the ticks by which the clock is on, less those of the
steps that were broken off by their tick rules.  So delays keep up with the clock
exactly if no step is unfinished, as when time has passed well. -/
theorem Game.pass_drift {fuel : Nat} {n : Int} {g h : Engine} {r : Except Fault Unit}
    (k : Game.pass fuel n g = some (r, h)) :
    ∃ es, Timeline [] ⟨[], g⟩ es ⟨[], h⟩ ∧
      ((Register.opening g).follow es).Shows (es.flatMap (·.begins)) [] h ∧
      h.state.time - g.state.time = agingsIn es + unfinished es ∧
      0 ≤ unfinished es ∧ (r = .ok () → unfinished es = 0) ∧
      ∀ t ∈ ((Register.opening g).follow es).queue, ∀ i, t.number = some i →
        0 < t.delay.ticks → ∃ d, g.queue[i]? = some d ∧ t.delay = d.less (agingsIn es) ∧
          (d.ticks - t.delay.ticks = h.state.time - g.state.time ↔ unfinished es = 0) := by
  obtain ⟨es, timeline, settled⟩ := Game.pass_trackedBy settled_law fuel n [] g r h k
  have shows := timeline.shows (Register.shows_opening g)
  have clock : h.state.time - g.state.time = agingsIn es + unfinished es := by
    have := timeline.time_eq
    dsimp only at this
    rw [this, unfinished]
    omega
  refine ⟨es, timeline, shows, clock, settled.nonneg, fun hr => settled.none (by rw [hr]; rfl),
    fun t ht i hi waits => ?_⟩
  obtain ⟨d, hd, ht⟩ := ((Register.AgedFrom.opening g).follow es).queue t ht i hi waits
  rw [Register.agings_follow] at ht
  have lost : (Register.opening g).agings + agingsIn es = agingsIn es := Nat.zero_add _
  rw [lost] at ht
  refine ⟨d, hd, ht, ?_⟩
  have ticks : t.delay.ticks = d.ticks - agingsIn es := congrArg Delay.ticks ht
  rw [clock, ticks]
  omega

/-- A tick rule that fails when the clock comes to 1, and a delay of two ticks. -/
def ailing : Entity :=
  (Entity.named "tick").append effectList [.script ⟨"1 / ((time) - 1)", .call "div"
    [.literal (.int 1), .call "sub" [.call "time" [] [] [], .literal (.int 1)] [] []] [] []⟩]

/-- A delay of two ticks that does nothing. -/
def patient : Delay :=
  ⟨2, .script ⟨"1 + 1", .call "add" [.literal (.int 1), .literal (.int 1)] [] []⟩, {}⟩

/-- An engine with a tick rule that fails at first, and a delay that waits. -/
def stalled : Engine :=
  { registry := { knowsFunctions := true }
    config := {}
    schema := (Schema.ofCatalog {}).toOption.getD {}
    state :=
      { entities := .ofList [("tick", ailing)], delays := .ofList [patient], dice := { seed := 0 } }
    history := .ofList [] }

theorem reachable_stalled : Reachable stalled := by
  have empty : Engine.start {} { knowsFunctions := true } =
      .ok { stalled with state := .start 0 } := rfl
  have ruled : Reachable
      { stalled with state := { State.start 0 with entities := .ofList [("tick", ailing)] } } :=
    (Reachable.start empty).insert (e := ailing) rfl
  exact .operate (.schedule patient.callback 2 {}) 0 ruled (r := .ok ()) rfl

/-- What is left when the tick rule fails: the clock has moved, and nothing else. -/
def halted : Engine := Clock.advance stalled.record

theorem pass_stalled : Game.pass 1 2 stalled =
    some (.error (.arithmetic .divisionByZero), halted) := rfl

theorem pass_halted : Game.pass 1 1 halted =
    some (.ok (), Clock.age (Clock.advance halted.record)) := rfl

/-- The step after the one that failed is finished. -/
theorem Game.pass_drift_halted : ∃ es h, Game.pass 1 1 halted = some (.ok (), h) ∧
    Timeline [] ⟨[], halted⟩ es ⟨[], h⟩ ∧ unfinished es = 0 ∧ agingsIn es = 1 := by
  obtain ⟨es, timeline, _, clock, _, finished, _⟩ := Game.pass_drift pass_halted
  have none := finished rfl
  refine ⟨es, _, pass_halted, timeline, none, ?_⟩
  have on : (Clock.age (Clock.advance halted.record)).state.time - halted.state.time = 1 := rfl
  rw [on, none] at clock
  omega

/-- **A delay can be late.**  The tick rule fails at the first clock step, which has
moved the clock but not aged the queue: the delay has lost no tick.  When time goes
on, the clock is on by two and the delay of two ticks waits still. -/
theorem late_for_good : Reachable stalled ∧ stalled.queue = [patient] ∧
    ∃ fault h h', Game.pass 1 2 stalled = some (.error fault, h) ∧
      h.state.time = stalled.state.time + 1 ∧ h.queue = [patient] ∧
      Game.pass 1 1 h = some (.ok (), h') ∧
      h'.state.time = stalled.state.time + patient.ticks ∧ h'.queue = [patient.less 1] :=
  ⟨reachable_stalled, rfl, _, halted, _, pass_stalled, rfl, rfl, pass_halted, rfl, rfl⟩

end Tabletop
