/-
# Rolling a game back

With a depth above 0, every clock step starts by recording the state.  Frame 1
is the newest.  Retrieving a frame drops the newer ones but keeps the frame
itself, so retrieving frame 1 again changes nothing.
-/

import Tabletop.Engine

namespace Tabletop
namespace Engine

/-- The frames a game can be rolled back to, newest first. -/
def frames (g : Engine) : List State := g.history.frames g.config.revertDepth

/-- Records the state. -/
def record (g : Engine) : Engine :=
  { g with history := g.history.record g.config.revertDepth g.state }

/-- The frame with a number, and the frames that end at it. -/
def frame? (g : Engine) (k : Nat) : Option (State × List State) :=
  if k = 0 then none
  else
    match g.frames.drop (k - 1) with
    | [] => none
    | frame :: older => some (frame, frame :: older)

/-- Rolls the game back to a frame, if it exists. -/
def revert (g : Engine) (k : Nat) : Bool × Engine :=
  match g.frame? k with
  | none => (false, g)
  | some (frame, frames) => (true, { g with state := frame, history := .ofList frames })

/-- A second engine at a frame, if it exists; the first keeps its state. -/
def retrieve (g : Engine) (k : Nat) : Option Engine × Engine :=
  match g.frame? k with
  | none => (none, g)
  | some (frame, frames) =>
    (some { g with state := frame, history := .ofList frames },
      { g with history := .ofList frames })

theorem frames_record (g : Engine) :
    g.record.frames = (g.state :: g.frames).take g.config.revertDepth :=
  g.history.frames_record g.config.revertDepth g.state

/-- The frames are numbered from 1. -/
theorem frame?_eq_none_iff {g : Engine} {k : Nat} :
    g.frame? k = none ↔ k = 0 ∨ g.frames.length < k := by
  unfold frame?
  split
  · simp_all
  · next hk =>
    split
    · next h =>
      have := List.drop_eq_nil_iff.1 h
      simp only [true_iff]
      omega
    · next h =>
      have hlen : (g.frames.drop (k - 1)).length ≠ 0 := by simp [h]
      rw [List.length_drop] at hlen
      simp only [reduceCtorEq, false_iff, not_or]
      omega

/-- Retrieving a frame drops the newer ones and keeps it. -/
theorem frame?_eq_some {g : Engine} {k : Nat} {frame : State} {frames : List State}
    (h : g.frame? k = some (frame, frames)) :
    frames = g.frames.drop (k - 1) ∧ frames.head? = some frame := by
  unfold frame? at h
  split at h
  · simp at h
  · split at h
    · simp at h
    · next e =>
      obtain ⟨rfl, rfl⟩ := by simpa using h
      exact ⟨e.symm, rfl⟩

/-- What is retrieved was there. -/
theorem mem_frames_of_frame? {g : Engine} {k : Nat} {frame : State} {frames : List State}
    (h : g.frame? k = some (frame, frames)) : frame ∈ g.frames ∧ frames ⊆ g.frames := by
  obtain ⟨rfl, head⟩ := frame?_eq_some h
  have older : g.frames.drop (k - 1) ⊆ g.frames := List.drop_subset _ _
  exact ⟨older (List.mem_of_mem_head? head), older⟩

/-- Rolling back leaves an engine alone or brings a frame back. -/
theorem revert_cases (g : Engine) (k : Nat) : (g.revert k).2 = g ∨
    ∃ frame frames, g.frame? k = some (frame, frames) ∧
      (g.revert k).2 = { g with state := frame, history := .ofList frames } := by
  unfold revert
  split
  · exact .inl rfl
  · next frame frames h => exact .inr ⟨frame, frames, h, rfl⟩

/-- Retrieving leaves an engine alone or drops its newer frames. -/
theorem retrieve_cases (g : Engine) (k : Nat) : (g.retrieve k).2 = g ∨
    ∃ frame frames, g.frame? k = some (frame, frames) ∧
      (g.retrieve k).2 = { g with history := .ofList frames } := by
  unfold retrieve
  split
  · exact .inl rfl
  · next frame frames h => exact .inr ⟨frame, frames, h, rfl⟩

/-- Retrieving leaves the state as it is. -/
theorem state_retrieve (g : Engine) (k : Nat) : (g.retrieve k).2.state = g.state := by
  obtain same | ⟨_, _, _, same⟩ := g.retrieve_cases k <;> rw [same]

/-- What is retrieved is the engine with a frame brought back. -/
theorem retrieve_eq_some {g past : Engine} {k : Nat} (h : (g.retrieve k).1 = some past) :
    ∃ frame frames, g.frame? k = some (frame, frames) ∧
      past = { g with state := frame, history := .ofList frames } := by
  unfold retrieve at h
  split at h
  · cases h
  · next frame frames hf =>
    cases h
    exact ⟨frame, frames, hf, rfl⟩

/-! ### Now and in every frame -/

/-- What holds of the state and of every frame. -/
def Always (P : State → Prop) (g : Engine) : Prop := ∀ s ∈ g.state :: g.frames, P s

namespace Always

variable {P : State → Prop} {g h : Engine}

/-- At the start of a game there is one state. -/
theorem start {config : Config} {registry : Registry} (hP : P (.start config.seed))
    (k : Engine.start config registry = .ok g) : g.Always P := by
  unfold Engine.start at k
  cases hs : Schema.ofCatalog config.catalog with
  | error fault => rw [hs] at k; cases k
  | ok schema =>
    rw [hs] at k
    cases k
    exact List.forall_mem_cons.2 ⟨hP, fun s hs => nomatch List.mem_of_mem_take hs⟩

/-- A state is replaced by one of which the same holds. -/
theorem of_state (hg : g.Always P) (state : P h.state) (frames : h.frames = g.frames) :
    h.Always P := by
  intro s hs
  rw [frames] at hs
  rcases List.mem_cons.1 hs with rfl | hs
  · exact state
  · exact hg s (List.mem_cons_of_mem _ hs)

/-- Every state was there before. -/
theorem of_subset (hg : g.Always P) (states : h.state :: h.frames ⊆ g.state :: g.frames) :
    h.Always P := fun s hs => hg s (states hs)

theorem record (hg : g.Always P) : g.record.Always P := by
  refine hg.of_subset (List.cons_subset.2 ⟨List.mem_cons_self, ?_⟩)
  rw [frames_record]
  exact List.take_subset _ _

/-- A frame is brought back, or only the newer frames are dropped. -/
theorem back (hg : g.Always P) {k : Nat} {frame : State} {frames : List State}
    (hf : g.frame? k = some (frame, frames)) {state : State}
    (hs : state = frame ∨ state = g.state) :
    ({ g with state, history := .ofList frames } : Engine).Always P := by
  obtain ⟨mem, older⟩ := mem_frames_of_frame? hf
  refine hg.of_subset (List.cons_subset.2 ⟨?_, ?_⟩)
  · rcases hs with rfl | rfl
    · exact List.mem_cons_of_mem _ mem
    · exact List.mem_cons_self
  · intro s hs
    exact List.mem_cons_of_mem _ (older (List.mem_of_mem_take hs))

theorem revert (hg : g.Always P) (k : Nat) : (g.revert k).2.Always P := by
  obtain same | ⟨frame, frames, hf, same⟩ := g.revert_cases k <;> rw [same]
  · exact hg
  · exact hg.back hf (.inl rfl)

theorem retrieve (hg : g.Always P) (k : Nat) : (g.retrieve k).2.Always P := by
  obtain same | ⟨frame, frames, hf, same⟩ := g.retrieve_cases k <;> rw [same]
  · exact hg
  · exact hg.back hf (.inr rfl)

theorem retrieved (hg : g.Always P) {k : Nat} {past : Engine}
    (hp : (g.retrieve k).1 = some past) : past.Always P := by
  obtain ⟨frame, frames, hf, rfl⟩ := retrieve_eq_some hp
  exact hg.back hf (.inl rfl)

end Always
end Engine
end Tabletop
