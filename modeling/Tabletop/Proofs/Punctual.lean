/-
# Delays fire on time

Time that passes well is a drain, and then clock steps that each end with a drain
(`Clock.Passage`).  If no tick rule and no callback moves the clock itself, the
clock is on by the steps alone; it never goes back (`Tracked.time_le`), so it
stands still in every tick rule and in every drain, and the register is kept on
schedule (`Kept.ticked`, `Poised.drained`, and step by step `Kept.steps`).

So every delay of the queue fires in the drain for which it was scheduled, before
all that was scheduled later, or is still in the queue (`Game.pass_schedule`).
-/

import Tabletop.Proofs.Drain
import Tabletop.Proofs.Schedule
import Tabletop.Proofs.Span

namespace Tabletop

variable {fuel n : Nat} {g h : Engine}

/-- The clock does not go back. -/
theorem Tracked.time_le {α : Type} {x : Run α} (hx : Tracked x) {r : Except Fault α}
    (k : x g = some (r, h)) : g.state.time ≤ h.state.time := by
  obtain ⟨es, t⟩ := hx [] g r h k
  have := t.time_eq
  dsimp only at this
  omega

namespace Clock

variable {fire : Delay → Run Unit} {tick : Run Unit} {scans : Nat} {calls : List Call}

/-! ### The calls of time that passes -/

/-- Clock steps that end well, with the calls of their drains. -/
inductive Strides (fire : Delay → Run Unit) (tick : Run Unit) :
    Engine → List (List Call) → Engine → Prop
  | nil {g : Engine} : Strides fire tick g [] g
  | cons {g m k h : Engine} {calls : List Call} {drains : List (List Call)} :
      tick (advance g.record) = some (.ok (), m) → Drains fire (age m) calls (.ok ()) k →
      Strides fire tick k drains h → Strides fire tick g (calls :: drains) h

/-- Time that passes well, with the calls of its drains: the first one, and one for
every clock step. -/
inductive Passage (fire : Delay → Run Unit) (tick : Run Unit) :
    Engine → List (List Call) → Engine → Prop
  | mk {g m h : Engine} {calls : List Call} {drains : List (List Call)} :
      Drains fire g calls (.ok ()) m → Strides fire tick m drains h →
      Passage fire tick g (calls :: drains) h

/-- The calls of a drain that ends well begin with what is due at its start. -/
theorem Drains.delays_eq (k : Drains fire g calls (.ok ()) h) :
    ∃ later, calls.map (·.delay) = due g ++ later := by
  cases k with
  | done scans idle =>
    cases scans with
    | nil => exact ⟨[], by rw [idle]; rfl⟩
    | cons _ fires _ => exact ⟨_, by rw [List.map_append, fires.delays_eq]⟩

/-! ### The row of a drain -/

/-- Firings have a timeline in which they begin in order. -/
theorem Fires.row {ds : List Delay} (k : Fires (Delay.fire (runner fuel)) ds g calls h) :
    ∃ es, Timeline [] ⟨ds, g⟩ es ⟨[], h⟩ ∧ Settled true es ∧
      (calls.map (·.delay)).Sublist (es.flatMap (·.begins)) := by
  induction k with
  | nil => exact ⟨[], .nil, settled_law.nil _, .slnil⟩
  | @cons d ds _ _ _ _ e _ ih =>
    obtain ⟨es, inner, settled⟩ :=
      Delay.fire_trackedBy settled_law fuel d (ds ++ []) _ _ _ e
    obtain ⟨fs, rest, settled', begins⟩ := ih
    refine ⟨.begun d :: (es ++ fs), .fired e inner rest, settled_law.fired settled settled', ?_⟩
    rw [List.flatMap_cons, List.flatMap_append]
    exact (begins.trans (List.sublist_append_right ..)).cons_cons d

theorem Scans.row (k : Scans (Delay.fire (runner fuel)) g calls h) :
    ∃ es, Timeline [] ⟨[], g⟩ es ⟨[], h⟩ ∧ Settled true es ∧
      (calls.map (·.delay)).Sublist (es.flatMap (·.begins)) := by
  induction k with
  | nil => exact ⟨[], .nil, settled_law.nil _, .slnil⟩
  | cons _ fires _ ih =>
    obtain ⟨es, scan, settled, begins⟩ := fires.row
    obtain ⟨fs, rest, settled', begins'⟩ := ih
    refine ⟨_, .cons .take (scan.append rest),
      settled_law.append (settled_law.taken _) (settled_law.append settled settled'), ?_⟩
    rw [List.map_append, List.flatMap_cons, List.flatMap_append]
    exact begins.append begins'

/-- A drain that ends well has a timeline in which its calls begin in order. -/
theorem Drains.row (k : Drains (Delay.fire (runner fuel)) g calls (.ok ()) h) :
    ∃ es, Timeline [] ⟨[], g⟩ es ⟨[], h⟩ ∧ Settled true es ∧
      (calls.map (·.delay)).Sublist (es.flatMap (·.begins)) := by
  cases k with
  | done scans _ => exact scans.row

/-! ### The clock in a drain -/

section

variable (forward : ∀ {d g r h}, fire d g = some (r, h) → g.state.time ≤ h.state.time)

include forward

theorem Fires.time_le {ds : List Delay} (k : Fires fire ds g calls h) :
    g.state.time ≤ h.state.time ∧
      ∀ c ∈ calls, g.state.time ≤ c.before.state.time ∧ c.before.state.time ≤ h.state.time := by
  induction k with
  | nil => exact ⟨Int.le_refl _, fun _ hc => nomatch hc⟩
  | cons e _ ih =>
    have on := forward e
    refine ⟨Int.le_trans on ih.1, fun c hc => ?_⟩
    rcases List.mem_cons.1 hc with rfl | hc
    · exact ⟨Int.le_refl _, Int.le_trans on ih.1⟩
    · exact ⟨Int.le_trans on (ih.2 c hc).1, (ih.2 c hc).2⟩

theorem Scans.time_le (k : Scans fire g calls h) :
    g.state.time ≤ h.state.time ∧
      ∀ c ∈ calls, g.state.time ≤ c.before.state.time ∧ c.before.state.time ≤ h.state.time := by
  induction k with
  | nil => exact ⟨Int.le_refl _, fun _ hc => nomatch hc⟩
  | @cons g _ m _ _ _ fires _ ih =>
    obtain ⟨on, within⟩ := fires.time_le forward
    have same : (withoutDue g).state.time = g.state.time := rfl
    rw [same] at on within
    refine ⟨Int.le_trans on ih.1, fun c hc => ?_⟩
    rcases List.mem_append.1 hc with hc | hc
    · exact ⟨(within c hc).1, Int.le_trans (within c hc).2 ih.1⟩
    · exact ⟨Int.le_trans on (ih.2 c hc).1, (ih.2 c hc).2⟩

/-- In a drain that does not move the clock, no callback finds it moved. -/
theorem Drains.time_eq (k : Drains fire g calls (.ok ()) h) (still : h.state.time = g.state.time) :
    ∀ c ∈ calls, c.before.state.time = g.state.time := by
  cases k with
  | done scans _ =>
    intro c hc
    have := (scans.time_le forward).2 c hc
    omega

end

end Clock

/-! ### One drain, one tick rule -/

/-- A drain after so many steps fires the tickets of the schedule at its start, in
order, and all it fires at the clock of that step. -/
structure Punctual (start : Register) (j : Nat) (calls : List Clock.Call) : Prop where
  first : ∃ later, calls.map (·.delay) = (start.fallDue j).map (·.ticket.delay) ++ later
  clock : ∀ c ∈ calls, c.before.state.time = start.clock + j

/-- A register shows an engine before the drain after so many steps. -/
structure Poised (start : Register) (j : Nat) (s : Register) (g : Engine) : Prop where
  shows : ∃ fired, s.Shows fired [] g
  fronted : s.Fronted
  ready : Register.Ready start j s
  clock : g.state.time = start.clock + j

/-- A register shows an engine after that drain. -/
structure Kept (start : Register) (j : Nat) (s : Register) (g : Engine) : Prop where
  shows : ∃ fired, s.Shows fired [] g
  fronted : s.Fronted
  onTime : Register.OnTime start j s
  clock : g.state.time = start.clock + j

variable {start s : Register} {j : Nat}

/-- The register opened on an engine shows it before the first drain. -/
theorem Poised.opening (g : Engine) : Poised (Register.opening g) 0 (Register.opening g) g where
  shows := ⟨[], Register.shows_opening g⟩
  fronted := Register.Fronted.opening g
  ready := Register.Ready.opening g
  clock := (Int.add_zero _).symm

/-- A register shows that nothing is pending where nothing is held or due. -/
theorem Register.Shows.pending {fired : List Delay} (hs : s.Shows fired [] g)
    (idle : Clock.due g = []) : s.pending = [] := by
  rw [hs.due_eq, List.map_eq_nil_iff, List.filter_eq_nil_iff] at idle
  have held : numbered s.held = [] := by
    rw [List.map_eq_nil_iff.1 hs.held]
    rfl
  rw [Register.pending, held, List.nil_append, List.filter_eq_nil_iff]
  exact fun t ht => idle t (List.mem_of_mem_filter ht)

/-- What is due begins with the tickets of the schedule. -/
theorem Poised.due (hs : Poised start j s g) :
    ∃ later, Clock.due g = (start.fallDue j).map (·.ticket.delay) ++ later := by
  obtain ⟨fired, shows⟩ := hs.shows
  obtain ⟨news, queue⟩ := hs.fronted.queue_eq
  refine ⟨(news.filter (·.isDue)).map (·.delay), ?_⟩
  rw [shows.due_eq, queue, List.filter_append, hs.ready.due, List.map_append, List.map_map]
  rfl

/-- **A drain that does not move the clock is punctual.** -/
theorem Poised.drained (hs : Poised start j s g) {scans : Nat}
    (k : Clock.drain (Delay.fire (runner fuel)) scans g = some (.ok (), h))
    (still : h.state.time = g.state.time) :
    ∃ calls es, Clock.Drains (Delay.fire (runner fuel)) g calls (.ok ()) h ∧
      Punctual start j calls ∧ Timeline [] ⟨[], g⟩ es ⟨[], h⟩ ∧
      (calls.map (·.delay)).Sublist (es.flatMap (·.begins)) ∧ Kept start j (s.follow es) h := by
  obtain ⟨fired, shows⟩ := hs.shows
  obtain ⟨calls, drains⟩ := Clock.drain_iff.1 ⟨scans, k⟩
  obtain ⟨es, timeline, settled, begins⟩ := drains.row
  have stands := Register.follow_quiet (timeline.isQuiet settled still) (.inl hs.ready.held)
  have after := timeline.shows shows
  refine ⟨calls, es, drains, ?_, timeline, begins, ?_⟩
  · have forward {d : Delay} {g h r} (e : d.fire (runner fuel) g = some (r, h)) :
        g.state.time ≤ h.state.time := (Delay.fire_tracked fuel d).time_le e
    obtain ⟨later, calls_eq⟩ := drains.delays_eq
    obtain ⟨others, due⟩ := hs.due
    refine ⟨⟨others ++ later, ?_⟩, fun c hc => ?_⟩
    · rw [calls_eq, due, List.append_assoc]
    · rw [drains.time_eq forward still c hc, hs.clock]
  · exact
      { shows := ⟨_, after⟩
        fronted := hs.fronted.follow (settled.kept rfl)
        onTime := hs.ready.drained (shows.clock.trans hs.clock) stands
          (after.pending (Clock.due_of_drain k))
        clock := still.trans hs.clock }

/-- **A tick rule that does not move the clock keeps to the schedule.** -/
theorem Kept.ticked (hs : Kept start j s g)
    (k : Move.tickRule (runner fuel) (Clock.advance g.record) = some (.ok (), h))
    (still : h.state.time = g.state.time + 1) :
    ∃ es, Timeline [] ⟨[], g⟩ es ⟨[], Clock.age h⟩ ∧
      Poised start (j + 1) (s.follow es) (Clock.age h) := by
  obtain ⟨fired, shows⟩ := hs.shows
  obtain ⟨es, timeline, settled⟩ := Move.tickRule_trackedBy settled_law fuel [] _ _ h k
  have quiet := timeline.isQuiet settled still
  have whole : Timeline [] ⟨[], g⟩ (.ticked g.state [] :: (es ++ [.aged])) ⟨[], Clock.age h⟩ :=
    .cons .tick (timeline.append (.single .age))
  refine ⟨_, whole, ?_⟩
  have row : s.follow (.ticked g.state [] :: (es ++ [.aged])) =
      ((s.enter (.ticked g.state [])).follow es).enter .aged := Register.follow_append ..
  have shown := whole.shows shows
  have fronted := (hs.fronted.enter (e := .ticked g.state []) rfl).follow (settled.kept rfl)
  have later : (Clock.age h).state.time = g.state.time + 1 := still
  rw [row] at shown ⊢
  exact
    { shows := ⟨_, shown⟩
      fronted := fronted.enter rfl
      ready := (hs.onTime.ticked quiet).aged
      clock := by
        rw [later, hs.clock]
        omega }

/-! ### Time that passes -/

section

variable {m : Engine} {scans : Nat}

/-- In a clock step the clock goes on by one tick at least, and does not go back after
the tick rule. -/
theorem Clock.time_le_of_step
    (kt : Move.tickRule (runner fuel) (advance g.record) = some (.ok (), m))
    (kd : drain (Delay.fire (runner fuel)) scans (age m) = some (.ok (), h)) :
    g.state.time + 1 ≤ m.state.time ∧ m.state.time ≤ h.state.time :=
  ⟨(Move.tickRule_tracked fuel).time_le kt,
    Tracked.time_le (g := age m) (tracked_drain (Delay.fire_tracked fuel) scans) kd⟩

/-- Clock steps put the clock on by at least their number. -/
theorem Clock.time_le_of_steps (k : Clock.steps (Delay.fire (runner fuel))
    (Move.tickRule (runner fuel)) scans n g = some (.ok (), h)) :
    g.state.time + n ≤ h.state.time := by
  induction n generalizing g with
  | zero =>
    cases k
    exact Int.le_of_eq (Int.add_zero _)
  | succ n ih =>
    obtain ⟨_, l, ks, k⟩ := Run.bind_eq_ok_iff.1 k
    obtain ⟨m, kt, kd⟩ := step_eq_ok_iff.1 ks
    have first := time_le_of_step kt kd
    have rest := ih k
    omega

/-- **Clock steps that alone move the clock keep to the schedule.** -/
theorem Kept.steps (hs : Kept start j s g)
    (k : Clock.steps (Delay.fire (runner fuel)) (Move.tickRule (runner fuel)) scans n g =
      some (.ok (), h))
    (steady : h.state.time = g.state.time + n) :
    ∃ drains es,
      Clock.Strides (Delay.fire (runner fuel)) (Move.tickRule (runner fuel)) g drains h ∧
      drains.length = n ∧
      (∀ i calls, drains[i]? = some calls → Punctual start (j + (i + 1)) calls) ∧
      Timeline [] ⟨[], g⟩ es ⟨[], h⟩ ∧
      (drains.flatten.map (·.delay)).Sublist (es.flatMap (·.begins)) ∧
      Kept start (j + n) (s.follow es) h := by
  induction n generalizing g s j with
  | zero =>
    cases k
    exact ⟨[], [], .nil, rfl, by simp, .nil, .slnil, hs⟩
  | succ n ih =>
    obtain ⟨_, l, ks, k⟩ := Run.bind_eq_ok_iff.1 k
    obtain ⟨m, kt, kd⟩ := Clock.step_eq_ok_iff.1 ks
    -- The clock never goes back, so the tick rule and the drain leave it as it is.
    have first := Clock.time_le_of_step kt kd
    have rest := Clock.time_le_of_steps k
    have same : (Clock.age m).state.time = m.state.time := rfl
    obtain ⟨es, tick, poised⟩ := hs.ticked kt (by omega)
    obtain ⟨calls, fs, drain, punctual, row, begins, kept⟩ := poised.drained kd (by omega)
    obtain ⟨drains, gs, strides, length, others, rows, begins', kept⟩ := ih kept k (by omega)
    refine ⟨calls :: drains, es ++ (fs ++ gs), .cons kt drain strides,
      congrArg (· + 1) length, fun i calls hi => ?_, tick.append (row.append rows), ?_, ?_⟩
    · cases i with
      | zero =>
        cases hi
        exact punctual
      | succ i =>
        rw [Nat.add_comm (i + 1), ← Nat.add_assoc]
        exact others i calls hi
    · rw [List.flatten_cons, List.map_append, List.flatMap_append, List.flatMap_append]
      exact (begins.append begins').trans (List.sublist_append_right ..)
    · rw [Register.follow_append, Register.follow_append, Nat.add_comm n, ← Nat.add_assoc]
      exact kept

end

/-- The delays of the schedule, told from the queue. -/
theorem Register.delays_fallDue (g : Engine) (j : Nat) :
    ((opening g).fallDue j).map (·.ticket.delay) =
      (g.queue.filter (·.ticks.toNat = j)).map (·.less j) := by
  rw [← (shows_opening g).queue, List.filter_map, List.map_map, fallDue, List.map_map]
  rfl

/-- The delays that are left, told from the queue. -/
theorem Register.delays_survivors (g : Engine) (j : Nat) :
    ((opening g).survivors j).map (·.delay) =
      (g.queue.filter ((j : Int) < ·.ticks)).map (·.less j) := by
  rw [← (shows_opening g).queue, List.filter_map, List.map_map, survivors, List.map_map]
  rfl

/-- **Delays fire exactly on schedule.**  Time passes well by `n` steps, and the clock is
on by `n`.  That says that neither the tick rule nor a callback moves it: every clock
step moves it by one, nothing moves it back (`Timeline.time_eq`), and `n` clock steps
are taken apart from theirs (`Clock.time_le_of_steps`).

Then time passes by a drain and `n` steps with a drain each.  The drain after `j` steps
runs at `j` ticks past the start; it fires first of all the delays of the queue whose
ticks ran out then, in the order of the queue, and only then what was scheduled in the
meantime.  The delays with more than `n` ticks are in front of the queue in the end, in
order, with `n` ticks fewer.

Nor does any of these delays fire once more, in a drain that a callback or the tick rule
starts: of the delays that were in the queue, each under its number, exactly those of
the schedule fire, one after another, each at its clock, and exactly the others are
left. -/
theorem Game.pass_schedule (k : Game.pass fuel n g = some (.ok (), h))
    (steady : h.state.time = g.state.time + n) :
    ∃ drains es,
      Clock.Passage (Delay.fire (runner fuel)) (Move.tickRule (runner fuel)) g drains h ∧
      drains.length = n + 1 ∧
      (∀ j calls, drains[j]? = some calls →
        (∃ later, calls.map (·.delay) =
          (g.queue.filter (·.ticks.toNat = j)).map (·.less j) ++ later) ∧
        ∀ c ∈ calls, c.before.state.time = g.state.time + j) ∧
      (∃ later, h.queue = (g.queue.filter ((n : Int) < ·.ticks)).map (·.less n) ++ later) ∧
      Timeline [] ⟨[], g⟩ es ⟨[], h⟩ ∧
      (drains.flatten.map (·.delay)).Sublist (es.flatMap (·.begins)) ∧
      ((Register.opening g).follow es).Shows (es.flatMap (·.begins)) [] h ∧
      ((Register.opening g).follow es).numberedFirings = (Register.opening g).schedule n ∧
      numbered ((Register.opening g).follow es).queue = (Register.opening g).survivors n := by
  obtain ⟨_, m, kd, ks⟩ := Run.bind_eq_ok_iff.1 k
  have drained : g.state.time ≤ m.state.time :=
    Tracked.time_le (Game.drain_tracked fuel) kd
  have stepped := Clock.time_le_of_steps ks
  rw [Int.toNat_natCast] at ks stepped
  obtain ⟨calls, es, drain, punctual, row, begins, kept⟩ :=
    (Poised.opening g).drained kd (by omega)
  obtain ⟨drains, fs, strides, length, others, rows, begins', kept⟩ :=
    kept.steps ks (by omega)
  have timeline := row.append rows
  rw [← Register.follow_append, Nat.zero_add] at kept
  refine ⟨calls :: drains, es ++ fs, .mk drain strides, congrArg (· + 1) length,
    fun j calls hj => ?_, ?_, timeline, ?_, timeline.shows (Register.shows_opening g),
    kept.onTime.firings, kept.onTime.queue⟩
  · have punctual : Punctual (Register.opening g) j calls := by
      cases j with
      | zero =>
        cases hj
        exact punctual
      | succ j =>
        rw [← Nat.zero_add (j + 1)]
        exact others j calls hj
    exact ⟨Register.delays_fallDue g j ▸ punctual.first, punctual.clock⟩
  · obtain ⟨_, shows⟩ := kept.shows
    obtain ⟨news, queue⟩ := kept.fronted.queue_eq
    refine ⟨news.map (·.delay), ?_⟩
    rw [← shows.queue, queue, kept.onTime.queue, List.map_append, Register.delays_survivors]
  · rw [List.flatten_cons, List.map_append, List.flatMap_append]
    exact begins.append begins'

/-- A delay of three ticks that does nothing. -/
def distant : Delay := { patient with ticks := 3 }

/-- A due delay that does nothing. -/
def overdue : Delay := { patient with ticks := 0 }

/-- An engine in whose queue delays of two, three and no ticks wait. -/
def booked : Engine :=
  { registry := { knowsFunctions := true }
    config := {}
    schema := (Schema.ofCatalog {}).toOption.getD {}
    state := { delays := .ofList [patient, distant, overdue], dice := { seed := 0 } }
    history := .ofList [] }

/-- In two steps the delays of no and of two ticks fire, and that of three ticks is left
with one. -/
theorem Game.pass_schedule_booked : ∃ h es, Game.pass 2 2 booked = some (.ok (), h) ∧
    h.state.time = booked.state.time + 2 ∧ Timeline [] ⟨[], booked⟩ es ⟨[], h⟩ ∧
    ((Register.opening booked).follow es).numberedFirings =
      [⟨⟨some 2, overdue⟩, 0, 0⟩, ⟨⟨some 0, { patient with ticks := 0 }⟩, 2, 2⟩] ∧
    numbered ((Register.opening booked).follow es).queue = [⟨some 1, distant.less 2⟩] := by
  let once := Clock.age (Clock.advance (Clock.withoutDue booked).record)
  have k : Game.pass 2 (2 : Nat) booked =
      some (.ok (), Clock.withoutDue (Clock.age (Clock.advance once.record))) := rfl
  obtain ⟨_, es, _, _, _, _, timeline, _, _, firings, left⟩ := Game.pass_schedule k rfl
  exact ⟨_, es, k, rfl, timeline, firings, left⟩

end Tabletop
