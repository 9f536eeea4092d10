/-
# The schedule: which delay fires in which step

A delay with `r` ticks to run fires in the drain that ends the `r`-th clock step,
or in the first drain if `r` is not positive.  So the queue at the start tells
what fires of it when (`Register.schedule`) and what is left of it in the end
(`Register.survivors`), whatever the callbacks and the tick rule put behind it.

While the clock stands still nothing ages, and in a run that ends well nothing
goes back to the queue.  What happens to numbered tickets in such a row is little
(`Register.Stands`): those that are due move through the hands of a drain into the
list of firings, in order, and the others stay in place.  So a register that is on
schedule (`Register.OnTime`) stays so while the tick rule runs, and the aging and
the drain after it add what falls due then (`Register.OnTime.aged`).
-/

import Mathlib.Data.List.Basic
import Tabletop.Proofs.Ageing

namespace Tabletop

/-! ### What is to happen -/

/-- The ticket with so many ticks fewer. -/
def Ticket.less (t : Ticket) (n : Nat) : Ticket := { t with delay := t.delay.less n }

/-- The tickets of a list that have numbers. -/
def numbered (ts : List Ticket) : List Ticket := ts.filter (·.isNumbered)

namespace Register

/-- The firings of numbered tickets, in order. -/
def numberedFirings (s : Register) : List Firing := s.firings.filter (·.ticket.isNumbered)

/-- The tickets that are to fire in the drain after so many steps, or later. -/
def toCome (start : Register) (j : Nat) : List Ticket :=
  (start.queue.filter (j ≤ ·.delay.ticks.toNat)).map (·.less j)

/-- The firings of the drain after so many steps, in the order of the queue. -/
def fallDue (start : Register) (j : Nat) : List Firing :=
  (start.queue.filter (·.delay.ticks.toNat = j)).map fun t => ⟨t.less j, start.clock + j, j⟩

/-- The tickets that are left after so many steps, in the order of the queue. -/
def survivors (start : Register) (j : Nat) : List Ticket :=
  (start.queue.filter ((j : Int) < ·.delay.ticks)).map (·.less j)

/-- The firings of the drains up to that after so many steps, in order. -/
def schedule (start : Register) (j : Nat) : List Firing :=
  (List.range (j + 1)).flatMap start.fallDue

theorem schedule_zero (start : Register) : start.schedule 0 = start.fallDue 0 :=
  List.flatMap_singleton ..

theorem schedule_succ (start : Register) (j : Nat) :
    start.schedule (j + 1) = start.schedule j ++ start.fallDue (j + 1) := by
  rw [schedule, List.range_succ, List.flatMap_append, List.flatMap_singleton]
  rfl

/-- What is to come at first is the queue. -/
theorem toCome_zero (start : Register) : start.toCome 0 = start.queue := by
  have all : (start.queue.filter fun t => decide (0 ≤ t.delay.ticks.toNat)) = start.queue :=
    List.filter_eq_self.2 fun t _ => decide_eq_true (Nat.zero_le _)
  rw [toCome, all]
  refine List.map_id'' (fun t => ?_) _
  exact congrArg (Ticket.mk t.number) (Delay.less_zero t.delay)

/-- One tick later, what was left is to come. -/
theorem map_age_survivors (start : Register) (j : Nat) :
    (start.survivors j).map (·.age) = start.toCome (j + 1) := by
  have later (t : Ticket) :
      decide ((j : Int) < t.delay.ticks) = decide (j + 1 ≤ t.delay.ticks.toNat) :=
    decide_eq_decide.2 (by omega)
  rw [survivors, toCome, List.map_map, List.filter_congr fun t _ => later t]
  refine List.map_congr_left fun t ht => ?_
  have waits := of_decide_eq_true (List.mem_filter.1 ht).2
  have ticks : 0 < (t.delay.less j).ticks := by
    have : (t.delay.less j).ticks = t.delay.ticks - j := rfl
    omega
  exact congrArg (Ticket.mk t.number) (Delay.age_less ticks)

/-- Of what is to come, that is due which falls due now. -/
theorem filter_isDue_toCome (start : Register) (j : Nat) :
    (start.toCome j).filter (·.isDue) =
      (start.queue.filter (·.delay.ticks.toNat = j)).map (·.less j) := by
  rw [toCome, List.filter_map, List.filter_filter]
  refine congrArg _ (List.filter_congr fun t _ => ?_)
  have due : (t.less j).isDue = decide (t.delay.ticks - j ≤ 0) := rfl
  rw [Function.comp_apply, due, ← Bool.decide_and]
  exact decide_eq_decide.2 (by omega)

/-- What is to come and not due yet is left. -/
theorem filter_not_isDue_toCome (start : Register) (j : Nat) :
    (start.toCome j).filter (!·.isDue) = start.survivors j := by
  rw [toCome, List.filter_map, List.filter_filter]
  refine congrArg _ (List.filter_congr fun t _ => ?_)
  have due : (t.less j).isDue = decide (t.delay.ticks - j ≤ 0) := rfl
  rw [Function.comp_apply, due, ← decide_not, ← Bool.decide_and]
  exact decide_eq_decide.2 (by omega)

/-- What is left is not due. -/
theorem filter_isDue_survivors (start : Register) (j : Nat) :
    (start.survivors j).filter (·.isDue) = [] := by
  rw [← filter_not_isDue_toCome, List.filter_filter, List.filter_eq_nil_iff]
  simp

end Register

/-! ### While the clock stands still -/

/-- Neither a clock step nor an aging, and nothing goes back to the queue. -/
def Event.isQuiet (e : Event) : Bool := !e.isTick && !e.isAging && !e.isReturn

variable {around : List Delay} {a b : Moment} {es : List Event}

/-- A run that ends well without moving the clock is quiet. -/
theorem Timeline.isQuiet (t : Timeline around a es b) (settled : Settled true es)
    (still : b.engine.state.time = a.engine.state.time) : ∀ e ∈ es, e.isQuiet = true := by
  have time := t.time_eq
  have finished := settled.none rfl
  have ticks : ticksIn es = 0 := by omega
  have agings : agingsIn es = 0 := by
    rw [unfinished, ticks] at finished
    omega
  intro e he
  have tick := List.countP_eq_zero.1 ticks e he
  have aging := List.countP_eq_zero.1 agings e he
  have return' := settled.kept rfl e he
  simp only [Bool.not_eq_true] at tick aging
  rw [Event.isQuiet, tick, aging, return']
  rfl

namespace Register

variable {s s' s'' start : Register} {e : Event}

/-- The numbered tickets that are to fire before the clock moves: those that drains hold,
and those that are due in the queue. -/
def pending (s : Register) : List Ticket :=
  numbered s.held ++ (numbered s.queue).filter (·.isDue)

/-- Drains hold no numbered ticket, or no numbered ticket in the queue is due. -/
def InTurn (s : Register) : Prop :=
  numbered s.held = [] ∨ (numbered s.queue).filter (·.isDue) = []

/-- What becomes of numbered tickets while the clock stands still: of those that are
pending some fire, in order, and those that are not due stay in place. -/
structure Stands (s s' : Register) : Prop where
  clock : s'.clock = s.clock
  agings : s'.agings = s.agings
  kept : (numbered s'.queue).filter (!·.isDue) = (numbered s.queue).filter (!·.isDue)
  fires : ∃ fired, s.pending = fired ++ s'.pending ∧
    s'.numberedFirings = s.numberedFirings ++ fired.map fun t => ⟨t, s.clock, s.agings⟩

namespace Stands

theorem refl (s : Register) : Stands s s where
  clock := rfl
  agings := rfl
  kept := rfl
  fires := ⟨[], rfl, (List.append_nil _).symm⟩

theorem trans (h : Stands s s') (k : Stands s' s'') : Stands s s'' := by
  obtain ⟨fired, hp, hf⟩ := h.fires
  obtain ⟨fired', kp, kf⟩ := k.fires
  refine
    { clock := k.clock.trans h.clock
      agings := k.agings.trans h.agings
      kept := k.kept.trans h.kept
      fires := ⟨fired ++ fired', ?_, ?_⟩ }
  · rw [hp, kp, List.append_assoc]
  · rw [kf, hf, h.clock, h.agings, List.map_append, List.append_assoc]

end Stands

theorem numbered_append (ts us : List Ticket) : numbered (ts ++ us) = numbered ts ++ numbered us :=
  List.filter_append ..

/-- One quiet event. -/
theorem enter_quiet (quiet : e.isQuiet = true) (turn : s.InTurn) :
    (s.enter e).InTurn ∧ s.Stands (s.enter e) := by
  cases e with
  | touched => exact ⟨turn, .refl s⟩
  | ticked | aged | returned => cases quiet
  | scheduled d =>
    have same : numbered (s.queue ++ [⟨none, d⟩]) = numbered s.queue := by
      rw [numbered_append]
      exact List.append_nil _
    refine ⟨?_, ⟨rfl, rfl, ?_, [], ?_, (List.append_nil _).symm⟩⟩
    · rw [InTurn, enter, same]
      exact turn
    · rw [enter, same]
    · rw [pending, pending, enter, same]
      rfl
  | taken due =>
    -- The due tickets come in front of what is held, and one of the two has no numbers.
    have due : numbered (s.queue.filter (·.isDue)) = (numbered s.queue).filter (·.isDue) :=
      List.filter_comm ..
    have rest : numbered (s.queue.filter (!·.isDue)) = (numbered s.queue).filter (!·.isDue) :=
      List.filter_comm ..
    have none : ((numbered s.queue).filter (!·.isDue)).filter (·.isDue) = [] := by
      simp [List.filter_filter]
    refine ⟨.inr ?_, ⟨rfl, rfl, ?_, [], ?_, (List.append_nil _).symm⟩⟩
    · rw [enter, rest, none]
    · rw [enter, rest]
      simp [List.filter_filter]
    · rw [pending, pending, enter, numbered_append, due, rest, none, List.append_nil]
      rcases turn with held | queue
      · rw [held, List.append_nil]
      · rw [queue, List.append_nil]
        rfl
  | begun d =>
    have split : numbered s.held = numbered (s.held.take 1) ++ numbered s.held.tail := by
      rw [← numbered_append, ← List.drop_one, List.take_append_drop]
    refine ⟨?_, ⟨rfl, rfl, rfl, numbered (s.held.take 1), ?_, ?_⟩⟩
    · rcases turn with held | queue
      · rw [split, List.append_eq_nil_iff] at held
        exact .inl held.2
      · exact .inr queue
    · rw [pending, pending, enter, split, List.append_assoc]
    · simp only [numberedFirings, enter, List.filter_append, List.filter_map]
      rfl

/-- A quiet row. -/
theorem follow_quiet (quiet : ∀ e ∈ es, e.isQuiet = true) (turn : s.InTurn) :
    s.Stands (s.follow es) := by
  induction es generalizing s with
  | nil => exact .refl s
  | cons e es ih =>
    obtain ⟨turn, stands⟩ := enter_quiet (quiet e List.mem_cons_self) turn
    exact stands.trans (ih (fun e he => quiet e (List.mem_cons_of_mem _ he)) turn)

/-- When nothing is pending any more, all that was pending has fired. -/
theorem Stands.settle (h : Stands s s') (none : s'.pending = []) :
    numbered s'.held = [] ∧ numbered s'.queue = (numbered s.queue).filter (!·.isDue) ∧
      s'.numberedFirings = s.numberedFirings ++
        s.pending.map fun t => ⟨t, s.clock, s.agings⟩ := by
  obtain ⟨fired, hp, hf⟩ := h.fires
  obtain ⟨held, due⟩ := List.append_eq_nil_iff.1 none
  rw [none, List.append_nil] at hp
  refine ⟨held, ?_, by rw [hf, hp]⟩
  rw [← h.kept, eq_comm, List.filter_eq_self]
  intro t ht
  have := List.filter_eq_nil_iff.1 due t ht
  simpa using this

/-! ### Old tickets in front -/

/-- In the queue numbered tickets stand before all others. -/
def Fronted (s : Register) : Prop :=
  ∃ olds news, s.queue = olds ++ news ∧ (∀ t ∈ olds, t.isNumbered = true) ∧
    ∀ t ∈ news, t.isNumbered = false

/-- All tickets of an opened register have numbers. -/
theorem isNumbered_opening {g : Engine} {t : Ticket} (ht : t ∈ (opening g).queue) :
    t.isNumbered = true := by
  obtain ⟨i, hi, _⟩ := mem_opening.1 ht
  rw [Ticket.isNumbered, hi]
  rfl

namespace Fronted

theorem opening (g : Engine) : (opening g).Fronted :=
  ⟨_, [], (List.append_nil _).symm, fun _ => isNumbered_opening, fun _ ht => nomatch ht⟩

theorem queue_eq (h : s.Fronted) : ∃ news, s.queue = numbered s.queue ++ news := by
  obtain ⟨olds, news, hq, ho, hn⟩ := h
  have all : numbered olds = olds := List.filter_eq_self.2 ho
  have none : numbered news = [] := List.filter_eq_nil_iff.2 fun t ht => by simp [hn t ht]
  refine ⟨news, ?_⟩
  rw [hq, numbered_append, all, none, List.append_nil]

/-- As long as nothing goes back, it stays so. -/
theorem enter (h : s.Fronted) (kept : e.isReturn = false) : (s.enter e).Fronted := by
  obtain ⟨olds, news, hq, ho, hn⟩ := h
  cases e with
  | touched | ticked | begun => exact ⟨olds, news, hq, ho, hn⟩
  | returned => cases kept
  | scheduled d =>
    refine ⟨olds, news ++ [⟨none, d⟩], ?_, ho, fun t ht => ?_⟩
    · rw [Register.enter, hq, List.append_assoc]
    · rcases List.mem_append.1 ht with ht | ht
      · exact hn t ht
      · cases List.mem_singleton.1 ht
        rfl
  | aged =>
    refine ⟨olds.map (·.age), news.map (·.age), ?_, fun t ht => ?_, fun t ht => ?_⟩
    · rw [Register.enter, hq, List.map_append]
    · obtain ⟨u, hu, rfl⟩ := List.mem_map.1 ht
      exact ho u hu
    · obtain ⟨u, hu, rfl⟩ := List.mem_map.1 ht
      exact hn u hu
  | taken due =>
    refine ⟨olds.filter (!·.isDue), news.filter (!·.isDue), ?_, fun t ht => ?_, fun t ht => ?_⟩
    · show s.queue.filter (!·.isDue) = _
      rw [hq, List.filter_append]
    · exact ho t (List.mem_of_mem_filter ht)
    · exact hn t (List.mem_of_mem_filter ht)

theorem follow (h : s.Fronted) (kept : ∀ e ∈ es, e.isReturn = false) : (s.follow es).Fronted := by
  induction es generalizing s with
  | nil => exact h
  | cons e es ih =>
    exact ih (h.enter (kept e List.mem_cons_self)) fun e he => kept e (List.mem_cons_of_mem _ he)

end Fronted

/-! ### On schedule -/

/-- Before the drain after so many steps nothing numbered is held, and the queue and the
firings are on schedule. -/
structure Ready (start : Register) (j : Nat) (s : Register) : Prop where
  agings : s.agings = j
  held : numbered s.held = []
  queue : numbered s.queue = start.toCome j
  firings : s.numberedFirings ++ start.fallDue j = start.schedule j

/-- After that drain, too. -/
structure OnTime (start : Register) (j : Nat) (s : Register) : Prop where
  agings : s.agings = j
  held : numbered s.held = []
  queue : numbered s.queue = start.survivors j
  firings : s.numberedFirings = start.schedule j

theorem Ready.opening (g : Engine) : Ready (opening g) 0 (opening g) where
  agings := rfl
  held := rfl
  queue := by
    rw [toCome_zero, numbered, List.filter_eq_self]
    exact fun _ => isNumbered_opening
  firings := (schedule_zero _).symm

/-- What is due of what is to come. -/
theorem Ready.due {j : Nat} (h : Ready start j s) :
    (numbered s.queue).filter (·.isDue) = (start.fallDue j).map (·.ticket) := by
  rw [h.queue, filter_isDue_toCome, fallDue, List.map_map]
  rfl

/-- **A drain fires what falls due in it, and nothing else that has a number.** -/
theorem Ready.drained {j : Nat} (h : Ready start j s) (clock : s.clock = start.clock + j)
    (stands : Stands s s') (none : s'.pending = []) : OnTime start j s' := by
  obtain ⟨held, queue, firings⟩ := stands.settle none
  have pending : s.pending = (start.fallDue j).map (·.ticket) := by
    rw [pending, h.held, h.due]
    rfl
  refine
    { agings := stands.agings.trans h.agings
      held := held
      queue := ?_
      firings := ?_ }
  · rw [queue, h.queue, filter_not_isDue_toCome]
  · rw [firings, pending, h.agings, clock, ← h.firings, fallDue, List.map_map, List.map_map]
    rfl

/-- On schedule nothing is pending. -/
theorem OnTime.pending {j : Nat} (h : OnTime start j s) : s.pending = [] := by
  rw [Register.pending, h.held, h.queue, filter_isDue_survivors]
  rfl

/-- While the clock stands still, nothing happens to what is on schedule. -/
theorem OnTime.stands {j : Nat} (h : OnTime start j s) (stands : Stands s s') :
    OnTime start j s' := by
  obtain ⟨fired, hp, _⟩ := stands.fires
  rw [h.pending, eq_comm, List.append_eq_nil_iff] at hp
  obtain ⟨held, queue, firings⟩ := stands.settle hp.2
  refine
    { agings := stands.agings.trans h.agings
      held := held
      queue := ?_
      firings := ?_ }
  · rw [queue, h.queue, List.filter_eq_self]
    intro t ht
    have := List.filter_eq_nil_iff.1 (filter_isDue_survivors start j) t ht
    simpa using this
  · rw [firings, h.pending, h.firings]
    exact List.append_nil _

/-- A clock step makes what is left a tick older. -/
theorem OnTime.aged {j : Nat} (h : OnTime start j s) : Ready start (j + 1) (s.enter .aged) where
  agings := congrArg (· + 1) h.agings
  held := h.held
  queue := by
    have same : numbered (s.queue.map (·.age)) = (numbered s.queue).map (·.age) :=
      List.filter_map ..
    rw [enter, same, h.queue, map_age_survivors]
  firings := by
    rw [schedule_succ, ← h.firings]
    rfl

/-- A tick rule that does not move the clock finds nothing to fire. -/
theorem OnTime.ticked {j : Nat} {before : State} {held : List Delay} (h : OnTime start j s)
    (quiet : ∀ e ∈ es, e.isQuiet = true) :
    OnTime start j ((s.enter (.ticked before held)).follow es) := by
  have moved : OnTime start j (s.enter (.ticked before held)) :=
    ⟨h.agings, h.held, h.queue, h.firings⟩
  exact moved.stands (follow_quiet quiet (.inl h.held))

end Register
end Tabletop
