/-
# Histories: the states a game can go back to

A history keeps the states recorded last, as many as its depth says; they are
its frames, newest first (`History.frames`).  Recording a state makes it the
first frame, and the frames beyond the depth are gone (`frames_record`).

So that recording costs the same at every depth, the list is cut only when it
has grown to twice the depth; what lies beyond the depth until then is never
seen.
-/

import Tabletop.State

namespace Tabletop

/-- The states recorded last, and how many are kept. -/
structure History where
  /-- The newest first. -/
  recorded : List State := []
  size : Nat := 0
  size_eq : size = recorded.length := by rfl

namespace History

/-- The history of given frames, newest first. -/
def ofList (frames : List State) : History := { recorded := frames, size := frames.length }

/-- The frames, newest first. -/
def frames (h : History) (depth : Nat) : List State := h.recorded.take depth

/-- Records a state. -/
def record (h : History) (depth : Nat) (s : State) : History :=
  if h.size < 2 * depth then
    { recorded := s :: h.recorded, size := h.size + 1, size_eq := by simp [h.size_eq] }
  else ofList ((s :: h.recorded).take depth)

theorem frames_ofList (frames : List State) (depth : Nat) :
    (ofList frames).frames depth = frames.take depth := rfl

theorem length_frames (h : History) (depth : Nat) :
    (h.frames depth).length = min depth h.size := by
  simp [frames, h.size_eq]

/-- A recorded state is the newest frame; the oldest ones beyond the depth are dropped. -/
theorem frames_record (h : History) (depth : Nat) (s : State) :
    (h.record depth s).frames depth = (s :: h.frames depth).take depth := by
  have e : (s :: h.recorded).take depth = (s :: h.frames depth).take depth := by
    cases depth <;> simp [frames, List.take_take]
  unfold record
  split
  · exact e
  · rw [frames_ofList, List.take_take, Nat.min_self, e]

end History
end Tabletop
