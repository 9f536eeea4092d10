/-
# Retrieval: rolling back is arithmetic on frame numbers

Retrieving a frame drops the newer ones and keeps the frame itself, so the frame
that had number `j` then has number 1.  To roll back by `j` and then by `k` is
therefore to roll back by `j + k - 1`, and fails when that fails
(`Engine.revert_revert`).  A second engine is retrieved exactly when the first one
could be rolled back, and is what that would have left (`Engine.retrieve_eq`).

A clock step after a rollback records a second frame for the same clock, and clock
steps go on from there.  Still the clocks of the frames never decrease towards the
present (`Reachable.chronological`), in whatever order a game is played and rolled
back.
-/

import Tabletop.Proofs.Frames

namespace Tabletop
namespace Engine

variable {g h : Engine} {j k : Nat} {frame : State} {frames : List State}

/-! ### Frame numbers -/

theorem length_frames_le (g : Engine) : g.frames.length ≤ g.config.revertDepth := by
  rw [Engine.frames, History.length_frames]
  exact Nat.min_le_left _ _

/-- Frames that are brought back are all kept. -/
theorem frames_back (hf : g.frame? k = some (frame, frames)) (s : State) :
    ({ g with state := s, history := .ofList frames } : Engine).frames = frames := by
  obtain ⟨rfl, _⟩ := frame?_eq_some hf
  have few : (g.frames.drop (k - 1)).length ≤ g.config.revertDepth := by
    have := g.length_frames_le
    rw [List.length_drop]
    omega
  exact List.take_of_length_le few

/-- **Frames are numbered anew from the one that is brought back.** -/
theorem frame?_back (hf : g.frame? j = some (frame, frames)) (hk : 1 ≤ k) (s : State) :
    ({ g with state := s, history := .ofList frames } : Engine).frame? k = g.frame? (j + k - 1) := by
  have hj : j ≠ 0 := by
    rintro rfl
    cases hf
  have number : j - 1 + (k - 1) = j + k - 1 - 1 := by omega
  obtain ⟨rfl, _⟩ := frame?_eq_some hf
  rw [frame?, frame?, frames_back hf s, List.drop_drop, number, if_neg (by omega),
    if_neg (by omega)]

/-! ### Rolling back -/

theorem revert_of_frame? (hf : g.frame? k = some (frame, frames)) :
    g.revert k = (true, { g with state := frame, history := .ofList frames }) := by
  rw [revert, hf]

theorem revert_of_none (hf : g.frame? k = none) : g.revert k = (false, g) := by
  rw [revert, hf]

/-- A game can be rolled back to the frames it has. -/
theorem revert_eq_false_iff : (g.revert k).1 = false ↔ k = 0 ∨ g.frames.length < k := by
  rw [← frame?_eq_none_iff]
  cases hf : g.frame? k with
  | none => simp [revert_of_none hf]
  | some p => simp [revert_of_frame? hf]

/-- A rollback that succeeds brings a frame back. -/
theorem exists_frame_of_revert (hj : (g.revert j).1 = true) :
    ∃ frame frames, g.frame? j = some (frame, frames) := by
  cases hf : g.frame? j with
  | none =>
    rw [revert_of_none hf] at hj
    cases hj
  | some p => exact ⟨p.1, p.2, rfl⟩

/-- **Two rollbacks are one**: further back by the sum of the numbers less one, where
there is such a frame; where there is none, the second changes nothing. -/
theorem revert_revert (hj : (g.revert j).1 = true) (hk : 1 ≤ k) :
    (g.revert j).2.revert k =
      if (g.revert (j + k - 1)).1 then g.revert (j + k - 1) else (false, (g.revert j).2) := by
  obtain ⟨frame, frames, hf⟩ := exists_frame_of_revert hj
  have number := frame?_back hf hk frame
  rw [revert_of_frame? hf]
  cases hb : g.frame? (j + k - 1) with
  | none => rw [revert_of_none hb, revert_of_none (number.trans hb), if_neg Bool.false_ne_true]
  | some p => rw [revert_of_frame? hb, revert_of_frame? (number.trans hb), if_pos rfl]

/-- **What is retrieved is what a rollback would leave**; the engine itself loses the
same frames and keeps its state. -/
theorem retrieve_eq (g : Engine) (k : Nat) : g.retrieve k =
    (if (g.revert k).1 then some (g.revert k).2 else none,
      { g with history := (g.revert k).2.history }) := by
  rw [retrieve]
  cases hf : g.frame? k with
  | none => rw [revert_of_none hf, if_neg Bool.false_ne_true]
  | some p => rw [revert_of_frame? hf, if_pos rfl]

/-! ### Clocks -/

/-- From the state back through the frames, the clock never goes up. -/
def Chronological (g : Engine) : Prop :=
  (g.state :: g.frames).Pairwise fun newer older => older.time ≤ newer.time

namespace Chronological

/-- Only the clock and the frames matter. -/
theorem of_eq (hg : g.Chronological) (time : h.state.time = g.state.time)
    (frames : h.frames = g.frames) : h.Chronological := by
  unfold Chronological at hg ⊢
  rw [List.pairwise_cons] at hg ⊢
  rwa [time, frames]

/-- A clock step records the state as it was before, and moves the clock on. -/
theorem tick (hg : g.Chronological) : (Clock.advance g.record).Chronological := by
  have on : (Clock.advance g.record).state.time = g.state.time + 1 := rfl
  have frames : (Clock.advance g.record).frames =
      (g.state :: g.frames).take g.config.revertDepth := frames_record g
  unfold Chronological at hg ⊢
  rw [frames]
  refine List.pairwise_cons.2 ⟨fun s hs => ?_, hg.sublist (List.take_sublist _ _)⟩
  have earlier : s.time ≤ g.state.time := by
    rcases List.mem_cons.1 (List.mem_of_mem_take hs) with rfl | hs
    · exact Int.le_refl _
    · exact (List.pairwise_cons.1 hg).1 s hs
  omega

/-- Without the newer frames the clocks go on as before. -/
theorem older (hg : g.Chronological) (hf : g.frame? k = some (frame, frames)) :
    ({ g with history := .ofList frames } : Engine).Chronological := by
  have same : ({ g with history := .ofList frames } : Engine).frames = frames :=
    frames_back hf g.state
  unfold Chronological at hg ⊢
  rw [same]
  obtain ⟨rfl, _⟩ := frame?_eq_some hf
  exact hg.sublist ((List.drop_sublist _ _).cons_cons _)

/-- A frame that is brought back stays the newest frame, at the present clock. -/
theorem back (hg : g.Chronological) (hf : g.frame? k = some (frame, frames)) :
    ({ g with state := frame, history := .ofList frames } : Engine).Chronological := by
  unfold Chronological at hg ⊢
  rw [frames_back hf frame]
  obtain ⟨rfl, head⟩ := frame?_eq_some hf
  obtain ⟨rest, hrest⟩ := List.head?_eq_some_iff.1 head
  have clocks := (List.pairwise_cons.1 hg).2.sublist (List.drop_sublist (k - 1) _)
  rw [hrest] at clocks ⊢
  refine List.pairwise_cons.2 ⟨fun s hs => ?_, clocks⟩
  rcases List.mem_cons.1 hs with rfl | hs
  · exact Int.le_refl _
  · exact (List.pairwise_cons.1 clocks).1 s hs

end Chronological
end Engine

/-- **The clocks of a reachable engine never decrease towards the present.** -/
theorem Reachable.chronological {g : Engine} (h : Reachable g) : g.Chronological := by
  refine h.invariant (fun hs => ?_) (fun k hg => ?_) (fun hg => ?_)
    (fun hf hg => hg.older hf) (fun hf hg => hg.back hf)
  · obtain ⟨_, _, none⟩ := Engine.start_eq_ok hs
    unfold Engine.Chronological
    rw [none]
    exact List.pairwise_singleton _ _
  · cases k with
    | touch t => exact hg.of_eq t.effect.keeps.time t.effect.keeps.frames
    | tick => exact hg.tick
    | schedule | age | take => exact hg.of_eq rfl rfl
  · exact hg.of_eq rfl rfl

/-- **Rollbacks compose, however they are interleaved with play.**  There are no more
frames than the depth, their clocks never decrease from the oldest to the newest, and
none is ahead of the present clock.  After a rollback by `j`, one by `k` succeeds
exactly when one by `j + k - 1` would have succeeded instead, and then leaves the same
engine; so one by 1 changes nothing.  Retrieving a frame succeeds exactly when rolling
back to it does and gives the engine that this would leave, while the state stays and
the history loses the same frames.  There is no frame 0 and none beyond the last, and
asking for one changes nothing. -/
theorem Reachable.rollback_algebra {g : Engine} (h : Reachable g) :
    (g.frames.length ≤ g.config.revertDepth ∧
      (g.frames.Pairwise fun newer older => older.time ≤ newer.time) ∧
      ∀ s ∈ g.frames, s.time ≤ g.state.time) ∧
    (∀ j k, 1 ≤ k → (g.revert j).1 = true →
      ((g.revert j).2.revert k).1 = (g.revert (j + k - 1)).1 ∧
      (((g.revert j).2.revert k).1 = true →
        ((g.revert j).2.revert k).2 = (g.revert (j + k - 1)).2) ∧
      (g.revert j).2.revert 1 = (true, (g.revert j).2)) ∧
    ∀ k,
      (g.retrieve k).1 = (if (g.revert k).1 then some (g.revert k).2 else none) ∧
      (g.retrieve k).2 = { g with history := (g.revert k).2.history } ∧
      ((g.revert k).1 = false ↔ k = 0 ∨ g.frames.length < k) ∧
      ((g.revert k).1 = false → (g.revert k).2 = g ∧ (g.retrieve k).1 = none ∧
        (g.retrieve k).2 = g) := by
  obtain ⟨present, clocks⟩ := List.pairwise_cons.1 h.chronological
  refine ⟨⟨g.length_frames_le, clocks, present⟩, fun j k hk hj => ?_, fun k => ?_⟩
  · have twice := Engine.revert_revert hj hk
    have again := Engine.revert_revert hj (Nat.le_refl 1)
    rw [Nat.add_sub_cancel, if_pos hj] at again
    refine ⟨?_, fun further => ?_, ?_⟩
    · rw [twice]
      split
      · rfl
      · next fails => exact (Bool.eq_false_iff.2 fails).symm
    · rw [twice] at further ⊢
      split at further
      · next succeeds => rw [if_pos succeeds]
      · cases further
    · rw [again]
      exact Prod.ext hj rfl
  · rw [Engine.retrieve_eq]
    refine ⟨rfl, rfl, Engine.revert_eq_false_iff, fun fails => ?_⟩
    have same : (g.revert k).2 = g := by
      rcases g.revert_cases k with same | ⟨frame, frames, hf, _⟩
      · exact same
      · rw [Engine.revert_of_frame? hf] at fails
        cases fails
    rw [fails, same]
    exact ⟨rfl, rfl, rfl⟩

/-- A game without entities at a time, with frames of other times. -/
def idle (time : Int) (clocks : List Int) : Engine :=
  { registry := {}
    config := { revertDepth := 3 }
    schema := (Schema.ofCatalog {}).toOption.getD {}
    state := { time, dice := { seed := 0 } }
    history := .ofList (clocks.map fun time => { time, dice := { seed := 0 } }) }

/-- Two steps, one back, and one step again give two frames for the clock 1. -/
theorem reachable_idle : Reachable (idle 2 [1, 1, 0]) := by
  have begun : Engine.start { revertDepth := 3 } {} = .ok (idle 0 []) := rfl
  have start : Reachable (idle 0 []) := .start begun
  have twice : Reachable (idle 2 [1, 0]) := .operate (r := .ok ()) (.pass 2) 1 start rfl
  have back : Reachable (idle 1 [1, 0]) := .revert 1 twice
  exact .operate (r := .ok ()) (.pass 1) 1 back rfl

/-- Rolled back by 2 and then by 2 again, the game is at its start. -/
theorem Reachable.rollback_algebra_twice : ∃ g : Engine, Reachable g ∧
    g.frames.map (·.time) = [1, 1, 0] ∧ (g.revert 2).1 = true ∧
      ((g.revert 2).2.revert 2).1 = (g.revert 3).1 ∧
      ((g.revert 2).2.revert 2).2.state.time = 0 := by
  obtain ⟨_, compose, _⟩ := Reachable.rollback_algebra reachable_idle
  obtain ⟨number, same, _⟩ := compose 2 2 (by omega) rfl
  have back : ((idle 2 [1, 1, 0]).revert 3).1 = true := rfl
  refine ⟨_, reachable_idle, rfl, rfl, number, ?_⟩
  rw [same (number.trans back)]
  rfl

end Tabletop
