/-
# The log: append-only and in order of time

A move is logged when its effects are done, with the clock as it stands then.
The effects may themselves have let time pass and logged moves of their own; those
records come first, and none of them is later.

So whatever happens to a game puts records at the end of the log, in order, and
their times lie between the clock before and the clock after
(`State.Continues`, `Stroke.continues`).  This passes from one thing that happens to
the next, hence to whole operations, whether they fail or not
(`Operates.continues`), and it keeps the records of a state in order and none of
them ahead of the clock (`State.Continues.dated`).  A rollback replaces clock and log
together by those of a frame, which was in order when it was recorded
(`Reachable.log_ordered`).
-/

import Tabletop.Proofs.Reachable

namespace Tabletop
namespace State

variable {r s t : State}

/-- The records are in order of time, and none is ahead of the clock. -/
structure Dated (s : State) : Prop where
  ordered : s.log.toList.Pairwise fun a b => a.time ≤ b.time
  past : ∀ entry ∈ s.log.toList, entry.time ≤ s.time

/-- The clock has not gone back, and the log has grown at its end only, by records in
order of time from one clock to the other. -/
structure Continues (s t : State) : Prop where
  time : s.time ≤ t.time
  log : ∃ new, t.log.toList = s.log.toList ++ new ∧
    (new.Pairwise fun a b => a.time ≤ b.time) ∧
      ∀ entry ∈ new, s.time ≤ entry.time ∧ entry.time ≤ t.time

namespace Continues

/-- Nothing is logged, and the clock does not go back. -/
theorem quiet (time : s.time ≤ t.time) (log : t.log = s.log) : s.Continues t where
  time := time
  log := ⟨[], by rw [log, List.append_nil], .nil, fun _ h => nomatch h⟩

theorem refl (s : State) : s.Continues s := quiet (Int.le_refl _) rfl

theorem trans (h : r.Continues s) (k : s.Continues t) : r.Continues t where
  time := Int.le_trans h.time k.time
  log := by
    obtain ⟨first, hlog, hordered, hwithin⟩ := h.log
    obtain ⟨second, klog, kordered, kwithin⟩ := k.log
    refine ⟨first ++ second, by rw [klog, hlog, List.append_assoc], ?_, fun entry he => ?_⟩
    · -- The first records are no later than the clock between, the second no earlier.
      refine List.pairwise_append.2 ⟨hordered, kordered, fun a ha b hb => ?_⟩
      exact Int.le_trans (hwithin a ha).2 (kwithin b hb).1
    · rcases List.mem_append.1 he with he | he
      · exact ⟨(hwithin entry he).1, Int.le_trans (hwithin entry he).2 k.time⟩
      · exact ⟨Int.le_trans h.time (kwithin entry he).1, (kwithin entry he).2⟩

/-- A move is logged with the present clock. -/
theorem logged (c : Choice) (g : Engine) : g.state.Continues (Move.log c g).state where
  time := Int.le_refl _
  log := ⟨[⟨g.state.time, c⟩], Series.toList_push _ _, List.pairwise_singleton _ _,
    fun entry he => by
      rw [List.mem_singleton.1 he]
      exact ⟨Int.le_refl _, Int.le_refl _⟩⟩

/-- Records in order stay in order. -/
theorem dated (h : s.Continues t) (hs : s.Dated) : t.Dated := by
  obtain ⟨new, log, ordered, within⟩ := h.log
  constructor
  · rw [log]
    refine List.pairwise_append.2 ⟨hs.ordered, ordered, fun a ha b hb => ?_⟩
    exact Int.le_trans (hs.past a ha) (within b hb).1
  · intro entry he
    rw [log] at he
    rcases List.mem_append.1 he with he | he
    · exact Int.le_trans (hs.past entry he) h.time
    · exact (within entry he).2

end Continues

/-- At the start of a game nothing is logged. -/
theorem dated_start (seed : UInt64) : (start seed).Dated where
  ordered := .nil
  past _ h := nomatch h

end State

/-! ### What happens to a game -/

variable {g h : Engine}

/-- What a change leaves behind continues the state. -/
theorem Engine.Effect.continues {adds : Entity → Prop} (k : g.Effect adds h) :
    g.state.Continues h.state := by
  cases k with
  | logged c => exact .logged c g
  | still | cached | edited | travelled | deleted | recruited | inserted | rolled =>
    exact .quiet (Int.le_refl _) rfl

/-- **Whatever happens continues the state.** -/
theorem Stroke.continues {around : List Delay} {a b : Moment} {e : Event}
    (s : Stroke around a e b) : a.engine.state.Continues b.engine.state := by
  cases s with
  | touch t => exact t.effect.continues
  | tick => exact .quiet (Int.le_of_lt (Int.lt_succ _)) rfl
  | schedule | age | take => exact .quiet (Int.le_refl _) rfl

/-- A run whose outcomes have timelines continues the state. -/
theorem Tracked.continues {α : Type} {x : Run α} (hx : Tracked x) {r : Except Fault α}
    (k : x g = some (r, h)) : g.state.Continues h.state := by
  obtain ⟨es, t⟩ := hx [] g r h k
  exact t.preserves (P := fun m => g.state.Continues m.state) (fun s hm => hm.trans s.continues)
    (fun hm => hm.trans (.quiet (Int.le_refl _) rfl)) (.refl _)

/-- **Every operation continues the state, whether it fails or not.** -/
theorem Operates.continues (k : Operates g h) : g.state.Continues h.state := by
  obtain ⟨op, fuel, r, k⟩ := k
  exact (op.tracked fuel).continues k

/-- Whatever happens leaves the records of every state in order. -/
theorem Stroke.dated {around : List Delay} {a b : Moment} {e : Event} (s : Stroke around a e b)
    (ha : a.engine.Always State.Dated) : b.engine.Always State.Dated := by
  have now : b.engine.state.Dated := s.continues.dated (ha _ List.mem_cons_self)
  cases s with
  | touch t => exact ha.of_state now t.effect.keeps.frames
  | tick => exact ha.record.of_state now rfl
  | schedule | age | take => exact ha.of_state now rfl

/-- The records of a reachable engine are in order, and so are those of its frames. -/
theorem Reachable.dated (hg : Reachable g) : g.Always State.Dated := by
  refine hg.invariant (fun hs => .start (State.dated_start _) hs) Stroke.dated (fun ha => ?_)
    (fun hf ha => ha.back hf (.inr rfl)) (fun hf ha => ha.back hf (.inl rfl))
  have now : State.Dated _ := ha _ List.mem_cons_self
  exact ha.of_state ⟨now.ordered, now.past⟩ rfl

/-- **The log is append-only and in order of time.**  No operation but a rollback takes
a record away or puts the clock back, whether it succeeds or fails, and what it logs is
dated from the clock before it to the clock after it; to retrieve a frame leaves clock and
log alone.  Now and in every frame, whatever was rolled back, the times of the records
never decrease along the log, and none is ahead of the clock. -/
theorem Reachable.log_ordered (hg : Reachable g) :
    (∀ (op : Operation) (fuel : Nat) (r : Except Fault Unit) (h : Engine),
      op.run fuel g = some (r, h) →
        g.state.time ≤ h.state.time ∧
          ∃ new, h.state.log.toList = g.state.log.toList ++ new ∧
            ∀ entry ∈ new, g.state.time ≤ entry.time ∧ entry.time ≤ h.state.time) ∧
    (∀ k, (g.retrieve k).2.state = g.state) ∧
    ∀ s ∈ g.state :: g.frames,
      (s.log.toList.Pairwise fun a b => a.time ≤ b.time) ∧
        ∀ entry ∈ s.log.toList, entry.time ≤ s.time := by
  refine ⟨fun op fuel r h k => ?_, g.state_retrieve, fun s hs => ?_⟩
  · have continues : g.state.Continues h.state := Operates.continues ⟨op, fuel, r, k⟩
    obtain ⟨new, log, _, within⟩ := continues.log
    exact ⟨continues.time, new, log, within⟩
  · have dated : s.Dated := hg.dated s hs
    exact ⟨dated.ordered, dated.past⟩

/-- A hero whose move lets a step pass. -/
def waiter : Entity :=
  (Entity.named "hero").append effectList
    [.script ⟨"advance 1", .call "control_time" [.literal (.int 1)] [] []⟩]

/-- A move that lets a step pass is logged with the clock after it, and the next one
behind it; rolled back by one step, the game has the log of then. -/
theorem Reachable.log_ordered_waiter : ∃ g h : Engine, Reachable g ∧
    (Operation.perform (.entity "hero") (.entity "hero") (.entity "hero")).run 2 g =
      some (.ok (), h) ∧
    g.state.log.toList.map (·.time) = [1] ∧ h.state.log.toList.map (·.time) = [1, 2] ∧
    (∃ new, h.state.log.toList = g.state.log.toList ++ new) ∧
    (h.revert 1).2.state.log.toList.map (·.time) = [1] ∧
    ∀ entry ∈ (h.revert 1).2.state.log.toList, entry.time ≤ (h.revert 1).2.state.time := by
  let act : Operation := .perform (.entity "hero") (.entity "hero") (.entity "hero")
  obtain ⟨start, hs⟩ : ∃ start,
      Engine.start { revertDepth := 3 } { knowsFunctions := true } = .ok start := ⟨_, rfl⟩
  obtain ⟨fresh, hf⟩ : ∃ fresh, Mutation.insert waiter start = some (.ok (), fresh) := by
    cases hs
    exact ⟨_, rfl⟩
  have begun : Reachable fresh := (Reachable.start hs).insert hf
  obtain ⟨g, hg⟩ : ∃ g, act.run 2 fresh = some (.ok (), g) := by
    cases hs
    cases hf
    exact ⟨_, rfl⟩
  have reachable : Reachable g := .operate act 2 begun hg
  obtain ⟨h, hh⟩ : ∃ h, act.run 2 g = some (.ok (), h) := by
    cases hs
    cases hf
    cases hg
    exact ⟨_, rfl⟩
  have back : Reachable (h.revert 1).2 := .revert 1 (.operate act 2 reachable hh)
  obtain ⟨_, new, behind, _⟩ := (log_ordered reachable).1 act 2 _ h hh
  have past := (log_ordered back).2.2 _ List.mem_cons_self
  cases hs
  cases hf
  cases hg
  cases hh
  exact ⟨_, _, reachable, rfl, rfl, rfl, ⟨new, behind⟩, rfl, past.2⟩

end Tabletop
