/-
# Frames: the history is exact

As long as nothing is rolled back, what an engine has recorded is told by the row
of events that led to it: its frames are the states before the last clock steps of
the row, the last one first, as many as the depth says (`Timeline.frames_eq`).  So
the frame with number `k` is the state before the `k`-th last clock step
(`exists_tick_of_recorded`), wherever that step was taken: in time that passes, in a
callback of a drain, or in an operation that failed.

Every clock step puts the clock on by one and nothing else moves it, so frame `k`
is `k` ticks in the past (`Timeline.time_recorded`, `history_exact`).
-/

import Tabletop.Proofs.Register
import Tabletop.Proofs.Rollback

namespace Tabletop

variable {around : List Delay} {a b : Moment} {es : List Event} {g₀ g : Engine}

/-! ### The states a row records -/

/-- A row records as many states as it has clock steps. -/
theorem length_recorded (es : List Event) : (recorded es).length = ticksIn es := by
  rw [recorded, List.length_reverse, List.length_filterMap_eq_countP]
  refine List.countP_congr fun e _ => ?_
  cases e <;> simp [Event.recorded?, Event.isTick]

theorem getElem?_recorded_append (es fs : List Event) (i : Nat) : (recorded (es ++ fs))[i]? =
    if i < ticksIn fs then (recorded fs)[i]? else (recorded es)[i - ticksIn fs]? := by
  rw [recorded_append, List.getElem?_append, length_recorded]

/-- A single event records one state if it is a clock step. -/
theorem getElem?_recorded_single {e : Event} {i : Nat} {s : State}
    (h : (recorded [e])[i]? = some s) : i = 0 ∧ ∃ held, e = .ticked s held := by
  cases e with
  | ticked before held =>
    cases i with
    | zero =>
      cases h
      exact ⟨rfl, held, rfl⟩
    | succ => cases h
  | touched | scheduled | aged | taken | begun | returned => cases h

/-- **The recorded states are numbered by the clock steps that come after.** -/
theorem exists_tick_of_recorded {i : Nat} {s : State} (h : (recorded es)[i]? = some s) :
    ∃ before held after, es = before ++ .ticked s held :: after ∧ ticksIn after = i := by
  induction es with
  | nil => cases h
  | cons e es ih =>
    rw [← List.singleton_append, getElem?_recorded_append] at h
    split at h
    · obtain ⟨before, held, after, rfl, number⟩ := ih h
      exact ⟨e :: before, held, after, rfl, number⟩
    · next beyond =>
      obtain ⟨number, held, rfl⟩ := getElem?_recorded_single h
      exact ⟨[], held, es, rfl, by omega⟩

/-- **The clock of a recorded state tells its number.** -/
theorem Timeline.time_recorded (t : Timeline around a es b) {i : Nat} {s : State}
    (h : (recorded es)[i]? = some s) : s.time = b.engine.state.time - (i + 1) := by
  induction t generalizing i with
  | nil => cases h
  | @cons around a b c e es stroke t ih =>
    rw [← List.singleton_append, getElem?_recorded_append] at h
    split at h
    · exact ih h
    · next beyond =>
      obtain ⟨number, held, rfl⟩ := getElem?_recorded_single h
      have time := t.time_eq
      cases stroke with
      | @tick g =>
        have on : (Clock.advance g.record).state.time = g.state.time + 1 := rfl
        rw [on] at time
        rw [time]
        omega
  | @fired _ _ d _ _ _ _ es fs _ _ t ihInner ih =>
    have row : recorded (.begun d :: (es ++ fs)) = recorded (es ++ fs) := rfl
    rw [row, getElem?_recorded_append] at h
    split at h
    · exact ih h
    · have time := t.time_eq
      have earlier := ihInner h
      dsimp only at time earlier
      omega
  | @failed _ held d _ _ _ _ _ es fs _ _ t ihInner ih =>
    have row : recorded (.begun d :: (es ++ .returned held :: fs)) = recorded (es ++ fs) :=
      (recorded_append es (.returned held :: fs)).trans (recorded_append es fs).symm
    rw [row, getElem?_recorded_append] at h
    split at h
    · exact ih h
    · have time := t.time_eq
      have earlier := ihInner h
      have same (m : Engine) : (Clock.requeue held m).state.time = m.state.time := rfl
      dsimp only at time earlier
      rw [same] at time
      omega

/-! ### Runs of operations -/

/-- A row of operations has a timeline. -/
theorem exists_timeline (run : Relation.ReflTransGen Operates g₀ g) :
    ∃ es, Timeline [] ⟨[], g₀⟩ es ⟨[], g⟩ := by
  induction run with
  | refl => exact ⟨[], .nil⟩
  | tail _ k ih =>
    obtain ⟨es, t⟩ := ih
    obtain ⟨op, fuel, r, k⟩ := k
    obtain ⟨fs, t'⟩ := op.tracked fuel [] _ r _ k
    exact ⟨es ++ fs, t.append t'⟩

/-- At the start of a game the clock shows 0, and there are no frames. -/
theorem Engine.start_eq_ok {config : Config} {registry : Registry}
    (fresh : Engine.start config registry = .ok g₀) :
    g₀.config = config ∧ g₀.state.time = 0 ∧ g₀.frames = [] := by
  obtain ⟨schema, _, start⟩ := Except.bind_eq_ok_iff.1 fresh
  cases start
  exact ⟨rfl, rfl, List.take_nil⟩

/-- What comes back with a number is the frame of that number. -/
theorem Engine.frame?_of_getElem? {k : Nat} {s : State} (pos : 1 ≤ k)
    (h : g.frames[k - 1]? = some s) : ∃ frames, g.frame? k = some (s, frames) := by
  obtain ⟨there, _⟩ := List.getElem?_eq_some_iff.1 h
  cases hf : g.frame? k with
  | none =>
    have := Engine.frame?_eq_none_iff.1 hf
    omega
  | some p =>
    obtain ⟨frame, frames⟩ := p
    obtain ⟨rfl, head⟩ := Engine.frame?_eq_some hf
    rw [List.head?_drop, h] at head
    cases head
    exact ⟨_, rfl⟩

/-- **The history is exact.**  Operations of any kind, whether they succeed or fail,
lead from the start of a game to an engine; nothing is rolled back.  Then a row of
events leads there, and in every such row the clock shows how many clock steps there
are, there are as many frames, up to the depth, and frame `k` is the whole state that
the `k`-th last clock step found, `k` ticks in the past.  It is the state that comes
back with this number. -/
theorem history_exact {config : Config} {registry : Registry}
    (fresh : Engine.start config registry = .ok g₀)
    (run : Relation.ReflTransGen Operates g₀ g) :
    (∃ es, Timeline [] ⟨[], g₀⟩ es ⟨[], g⟩) ∧
    ∀ es, Timeline [] ⟨[], g₀⟩ es ⟨[], g⟩ →
      g.state.time = ticksIn es ∧
      g.frames.length = min config.revertDepth (ticksIn es) ∧
      ∀ k, 1 ≤ k → k ≤ g.frames.length → ∃ before s held after,
        es = before ++ .ticked s held :: after ∧ ticksIn after + 1 = k ∧
        g.frames[k - 1]? = some s ∧ s.time = g.state.time - k ∧
        (∃ past, (g.retrieve k).1 = some past ∧ past.state = s) ∧
        (g.revert k).1 = true ∧ (g.revert k).2.state = s := by
  refine ⟨exists_timeline run, fun es t => ?_⟩
  obtain ⟨depth, zero, none⟩ := Engine.start_eq_ok fresh
  have time := t.time_eq
  have frames := t.frames_eq.2
  dsimp only at time frames
  rw [zero, Int.zero_add] at time
  rw [none, List.append_nil, depth] at frames
  have length : g.frames.length = min config.revertDepth (ticksIn es) := by
    rw [frames, List.length_take, length_recorded]
  refine ⟨time, length, fun k pos le => ?_⟩
  have there : k - 1 < g.frames.length := by omega
  obtain ⟨s, hs⟩ : ∃ s, g.frames[k - 1]? = some s := ⟨_, List.getElem?_eq_getElem there⟩
  have row : (recorded es)[k - 1]? = some s := by
    rw [frames, List.getElem?_take] at hs
    split at hs
    · exact hs
    · cases hs
  obtain ⟨before, held, after, split, number⟩ := exists_tick_of_recorded row
  have clock := t.time_recorded row
  obtain ⟨older, back⟩ := Engine.frame?_of_getElem? pos hs
  refine ⟨before, s, held, after, split, by omega, hs, ?_, ?_⟩
  · dsimp only at clock
    omega
  · rw [Engine.retrieve, Engine.revert, back]
    exact ⟨⟨_, rfl, rfl⟩, rfl, rfl⟩

/-- A callback lets a step pass within a drain; the state that this step found is the
first frame. -/
theorem history_exact_crowded : ∃ g₀ h, Engine.start crowded.config crowded.registry = .ok g₀ ∧
    Relation.ReflTransGen Operates g₀ h ∧ h.state.time = 1 ∧
    ∃ before s held after, Timeline [] ⟨[], g₀⟩ (before ++ .ticked s held :: after) ⟨[], h⟩ ∧
      ticksIn after = 0 ∧ h.frames[0]? = some s ∧ s.time = 0 ∧ (h.revert 1).2.state = s := by
  let fresh : Engine := { crowded with state := .start 0 }
  let left : Engine := Clock.age (Clock.advance (Clock.withoutDue crowded).record)
  have start : Engine.start crowded.config crowded.registry = .ok fresh := rfl
  have first : Operates fresh (Clock.schedule stepping.callback 0 {} fresh) :=
    ⟨.schedule stepping.callback 0 {}, 0, .ok (), rfl⟩
  have second : Operates (Clock.schedule stepping.callback 0 {} fresh) crowded :=
    ⟨.schedule idling.callback 0 {}, 0, .ok (), rfl⟩
  have drained : Operates crowded left := ⟨.drain, 2, .ok (), rfl⟩
  have run : Relation.ReflTransGen Operates fresh left :=
    ((Relation.ReflTransGen.single first).tail second).tail drained
  obtain ⟨⟨es, t⟩, history⟩ := history_exact start run
  obtain ⟨_, _, frames⟩ := history es t
  obtain ⟨before, s, held, after, rfl, number, frame, clock, _, _, back⟩ :=
    frames 1 (Nat.le_refl 1) (Nat.le_refl 1)
  exact ⟨fresh, left, start, run, rfl, before, s, held, after, t, by omega, frame, clock, back⟩

end Tabletop
