/-
# Both sides of the occupancy index agree

The index of who stands where keeps a location for every name and a row of
names for every location.  Placing and removing change both sides, and the rows
then list exactly the names with that location, each once
(`Occupancy.Consistent`).  The equations `standing_place` and `standing_remove`
give the rows after a change without a look at how cells are kept.
-/

import Tabletop.Board.Occupancy

namespace Tabletop
namespace Occupancy

/-- The row of a location lists exactly the names that stand there, each once. -/
structure Consistent (o : Occupancy) : Prop where
  nodup : ∀ c, (o.standing c).Nodup
  mem_standing : ∀ {c name}, name ∈ o.standing c ↔ o.location name = some c

/-- A row of cells. -/
def row (cells : Std.ExtTreeMap Coord (Series String)) (c : Coord) : List String :=
  (cells.getD c .empty).toList

theorem standing_eq_row (o : Occupancy) (c : Coord) : o.standing c = row o.cells c := rfl

theorem row_attach (cells : Std.ExtTreeMap Coord (Series String)) (name : String) (c c' : Coord) :
    row (attach cells name c) c' = if c = c' then row cells c ++ [name] else row cells c' := by
  unfold attach row
  rw [Std.ExtTreeMap.getD_alter]
  simp only [Std.compare_eq_iff_eq]
  split
  · simp [Std.ExtTreeMap.getD_eq_getD_getElem?]
  · rfl

theorem row_detach (cells : Std.ExtTreeMap Coord (Series String)) (name : String) (c c' : Coord) :
    row (detach cells name c) c' =
      if c = c' then (row cells c).filter (· ≠ name) else row cells c' := by
  unfold detach row
  rw [Std.ExtTreeMap.getD_alter]
  simp only [Std.compare_eq_iff_eq]
  split
  · rw [← Series.toList_filter, Std.ExtTreeMap.getD_eq_getD_getElem?]
    -- An emptied cell is dropped, and a missing cell reads as an empty row.
    generalize (cells[c]?.getD .empty).filter (· ≠ name) = left
    split
    · next h =>
      rw [← Series.length_toList, List.length_eq_zero_iff] at h
      simp [h]
    · rfl
  · rfl

/-- A name that does not stand at a location is not in its row. -/
theorem Consistent.filter_standing {o : Occupancy} (h : o.Consistent) {name : String} {c : Coord}
    (hc : o.location name ≠ some c) : (o.standing c).filter (· ≠ name) = o.standing c := by
  refine List.filter_eq_self.2 fun other ho => decide_eq_true fun e => hc ?_
  exact h.mem_standing.1 (e ▸ ho)

theorem place_self {o : Occupancy} {name : String} {c : Coord} (h : o.location name = some c) :
    o.place name c = o := by
  unfold place
  simp [h]

/-- A name placed where it stands keeps its turn; placed elsewhere, it leaves its
row and joins the end of the other. -/
theorem standing_place {o : Occupancy} (h : o.Consistent) (name : String) (c c' : Coord) :
    (o.place name c).standing c' =
      if o.location name = some c then o.standing c'
      else (o.standing c').filter (· ≠ name) ++ if c = c' then [name] else [] := by
  split
  · next hc => rw [place_self hc]
  · next hc =>
    unfold place
    split
    · next old ho =>
      have hne : old ≠ c := by simpa [ho] using hc
      rw [if_neg hne]
      simp only [standing_eq_row, row_attach, row_detach, if_neg hne]
      split
      · next e => subst e; rw [← standing_eq_row, h.filter_standing hc]
      · rw [List.append_nil]
        split
        · next e => rw [e]
        · next e => rw [← standing_eq_row, h.filter_standing (by simpa [ho] using e)]
    · next ho =>
      simp only [standing_eq_row, row_attach]
      split
      · next e => subst e; rw [← standing_eq_row, h.filter_standing hc]
      · rw [← standing_eq_row, h.filter_standing (by simp [ho]), List.append_nil]

/-- A removed name leaves its row. -/
theorem standing_remove {o : Occupancy} (h : o.Consistent) (name : String) (c : Coord) :
    (o.remove name).standing c = (o.standing c).filter (· ≠ name) := by
  unfold remove
  split
  · next old ho =>
    simp only [standing_eq_row, row_detach]
    split
    · next e => rw [e]
    · next e => rw [← standing_eq_row, h.filter_standing (by simpa [ho] using e)]
  · next ho => rw [h.filter_standing (by simp [ho])]

theorem consistent_empty : empty.Consistent where
  nodup c := by simp [empty, standing]
  mem_standing := by simp [empty, standing, location]

/-- Placing keeps both sides in agreement. -/
theorem Consistent.place {o : Occupancy} (h : o.Consistent) (name : String) (c : Coord) :
    (o.place name c).Consistent where
  nodup c' := by
    rw [standing_place h]
    split
    · exact h.nodup c'
    · refine List.nodup_append.2 ⟨(h.nodup c').filter _, by split <;> simp, fun a ha b hb => ?_⟩
      have ha' : a ≠ name := by simpa using (List.mem_filter.1 ha).2
      split at hb
      · rw [List.mem_singleton.1 hb]; exact ha'
      · cases hb
  mem_standing {c' other} := by
    rw [standing_place h, location_place]
    split
    · next hc =>
      rw [h.mem_standing]
      split
      · next e => rw [← e, hc]
      · rfl
    · simp only [List.mem_append, List.mem_filter, h.mem_standing, decide_eq_true_eq]
      split <;> split <;> simp_all [eq_comm]

/-- Removing keeps both sides in agreement. -/
theorem Consistent.remove {o : Occupancy} (h : o.Consistent) (name : String) :
    (o.remove name).Consistent where
  nodup c := by
    rw [standing_remove h]
    exact (h.nodup c).filter _
  mem_standing {c other} := by
    rw [standing_remove h, location_remove]
    simp only [List.mem_filter, h.mem_standing, decide_eq_true_eq]
    split <;> simp_all [eq_comm]

theorem location_move (o : Occupancy) (name other : String) (goal : Option Coord) :
    (o.move name goal).location other = if name = other then goal else o.location other := by
  cases goal with
  | none => exact location_remove o name other
  | some c => exact location_place o name other c

theorem Consistent.move {o : Occupancy} (h : o.Consistent) (name : String) (goal : Option Coord) :
    (o.move name goal).Consistent := by
  cases goal with
  | none => exact h.remove name
  | some c => exact h.place name c

/-- A name that stands nowhere needs no taking off the board. -/
theorem elim_place_eq_move {o : Occupancy} {name : String} (h : o.location name = none)
    (goal : Option Coord) : goal.elim o (o.place name) = o.move name goal := by
  cases goal with
  | none => simp [Occupancy.move, remove, h]
  | some c => rfl

end Occupancy
end Tabletop
