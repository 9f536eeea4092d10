/-
# Arrivals: the board as one list

Who stands where is kept both ways, and every change has to write both sides.
All that can be asked of the board can be asked of one list as well: the names
with their locations, in the order in which they arrived (`Arrivals`).  A name
that is placed anew leaves its entry and arrives last, and one that is placed
where it stands keeps its turn.

The index refines this list (`Occupancy.Refines`): the entries of the list are the
names of the index with their locations, and every location has the same row in
both.  Each change of the one is the same change of the other (`Refines.place`,
`Refines.remove`), and all that can be asked follows (`Refines.location_eq`,
`Refines.size_eq`).

A board is known by these answers: no cell is left behind where nobody stands
(`Occupancy.Tidy`), so indexes that agree on all names and locations are equal
(`Tidy.eq_iff`).
-/

import Tabletop.Proofs.Occupancy
import Mathlib.Data.List.Nodup

namespace Tabletop

/-- The names on the board with their locations, in the order in which they arrived. -/
abbrev Arrivals := List (String × Coord)

namespace Arrivals

/-- Where a name stands. -/
def location (a : Arrivals) (name : String) : Option Coord := List.lookup name a

/-- The names at a location, in the order in which they arrived. -/
def standing (a : Arrivals) (c : Coord) : List String := (a.filter (·.2 = c)).map (·.1)

/-- Whether a name stands anywhere. -/
def contains (a : Arrivals) (name : String) : Bool := a.any (·.1 = name)

/-- Takes a name off the board. -/
def remove (a : Arrivals) (name : String) : Arrivals := a.filter (·.1 ≠ name)

/-- Puts a name at a location: nothing changes if it stands there, and otherwise it
arrives last. -/
def place (a : Arrivals) (name : String) (c : Coord) : Arrivals :=
  if (name, c) ∈ a then a else a.remove name ++ [(name, c)]

/-- Makes a change; the answer is where the name stood before. -/
def step (a : Arrivals) : Occupancy.Step → Option Coord × Arrivals
  | .place name c => (a.location name, a.place name c)
  | .remove name => (a.location name, a.remove name)

/-- What a row of changes makes of an empty board. -/
def after (steps : List Occupancy.Step) : Arrivals := steps.foldl (fun a s => (a.step s).2) []

variable {a : Arrivals} {name other : String} {c c' : Coord}

theorem mem_remove_iff : (other, c) ∈ a.remove name ↔ (other, c) ∈ a ∧ other ≠ name := by
  simp [remove]

theorem mem_standing_iff : name ∈ a.standing c ↔ (name, c) ∈ a := by
  simp [standing]

/-- A name stands somewhere exactly if it has an entry. -/
theorem isSome_location_iff : (a.location name).isSome ↔ name ∈ a.map (·.1) := by
  rw [location, List.lookup_isSome_iff, List.mem_map]
  simp only [beq_iff_eq, eq_comm (a := name)]

/-- If no name has two entries, its entry tells where it stands. -/
theorem location_eq_some_iff (nodup : (a.map (·.1)).Nodup) :
    a.location name = some c ↔ (name, c) ∈ a := by
  have mem {c : Coord} (h : a.location name = some c) : (name, c) ∈ a := by
    obtain ⟨before, after, rfl, _⟩ := List.lookup_eq_some_iff.1 h
    exact List.mem_append_right _ List.mem_cons_self
  refine ⟨mem, fun h => ?_⟩
  obtain ⟨c', hc⟩ := Option.isSome_iff_exists.1 (isSome_location_iff.2 (List.mem_map_of_mem h))
  have same := List.inj_on_of_nodup_map nodup h (mem hc) rfl
  cases same
  exact hc

/-- A removed name leaves its row. -/
theorem standing_remove : (a.remove name).standing c = (a.standing c).filter (· ≠ name) := by
  rw [standing, standing, remove, List.filter_map, List.filter_filter, List.filter_filter]
  exact congrArg (List.map _) (List.filter_congr fun p _ => Bool.and_comm _ _)

/-- A name that arrives is the last one of its row. -/
theorem standing_append : Arrivals.standing (a ++ [(name, c)]) c' =
    a.standing c' ++ if c = c' then [name] else [] := by
  rw [standing, standing, List.filter_append, List.map_append]
  split <;> simp_all

/-- No name gets a second entry when others lose theirs. -/
theorem nodup_filter (nodup : (a.map (·.1)).Nodup) (p : String × Coord → Bool) :
    ((a.filter p).map (·.1)).Nodup :=
  nodup.sublist (List.filter_sublist.map _)

end Arrivals

namespace Occupancy

/-- What a row of changes makes of an empty board. -/
def after (steps : List Step) : Occupancy := steps.foldl (fun o s => (o.step s).2) empty

/-! ### The list of arrivals -/

/-- The index and the list of arrivals are about the same board. -/
structure Refines (o : Occupancy) (a : Arrivals) : Prop where
  nodup : (a.map (·.1)).Nodup
  mem_iff : ∀ {name c}, (name, c) ∈ a ↔ o.location name = some c
  standing_eq : ∀ c, o.standing c = a.standing c

namespace Refines

variable {o : Occupancy} {a : Arrivals}

theorem empty : empty.Refines [] where
  nodup := .nil
  mem_iff := by simp [Occupancy.empty, location]
  standing_eq c := by simp [Occupancy.empty, standing, Arrivals.standing]

theorem location_eq (h : o.Refines a) (name : String) : o.location name = a.location name :=
  Option.ext fun c => by rw [Arrivals.location_eq_some_iff h.nodup, h.mem_iff]

/-- Both sides of the index agree, since both agree with the list. -/
theorem consistent (h : o.Refines a) : o.Consistent where
  nodup c := by
    rw [h.standing_eq]
    exact Arrivals.nodup_filter h.nodup _
  mem_standing {c name} := by rw [h.standing_eq, Arrivals.mem_standing_iff, h.mem_iff]

theorem remove (h : o.Refines a) (name : String) : (o.remove name).Refines (a.remove name) where
  nodup := Arrivals.nodup_filter h.nodup _
  mem_iff {other c} := by
    rw [Arrivals.mem_remove_iff, location_remove, h.mem_iff]
    split <;> simp_all [eq_comm]
  standing_eq c := by
    rw [standing_remove h.consistent, Arrivals.standing_remove, h.standing_eq]

theorem place (h : o.Refines a) (name : String) (c : Coord) :
    (o.place name c).Refines (a.place name c) := by
  unfold Arrivals.place
  split
  · next there =>
    rw [place_self (h.mem_iff.1 there)]
    exact h
  · next elsewhere =>
    have moves : o.location name ≠ some c := fun there => elsewhere (h.mem_iff.2 there)
    constructor
    · have fresh : name ∉ (a.remove name).map (·.1) := by simp [Arrivals.remove]
      rw [List.map_append]
      exact (Arrivals.nodup_filter h.nodup _).append (List.nodup_singleton name)
        (List.disjoint_singleton.2 fresh)
    · intro other c'
      rw [List.mem_append, Arrivals.mem_remove_iff, List.mem_singleton, location_place, h.mem_iff]
      split <;> simp_all [eq_comm]
    · intro c'
      rw [standing_place h.consistent, if_neg moves, Arrivals.standing_append,
        Arrivals.standing_remove, h.standing_eq]

/-- A change of the index is the same change of the list, with the same answer. -/
theorem step (h : o.Refines a) (s : Step) :
    (o.step s).1 = (a.step s).1 ∧ (o.step s).2.Refines (a.step s).2 := by
  cases s with
  | place name c => exact ⟨h.location_eq name, h.place name c⟩
  | remove name => exact ⟨h.location_eq name, h.remove name⟩

/-- A row of changes of the index is the same row of changes of the list. -/
theorem steps (h : o.Refines a) (ss : List Step) :
    (ss.foldl (fun o s => (o.step s).2) o).Refines (ss.foldl (fun a s => (a.step s).2) a) := by
  induction ss generalizing o a with
  | nil => exact h
  | cons s ss ih => exact ih (h.step s).2

theorem after (steps : List Step) : (after steps).Refines (.after steps) :=
  Refines.empty.steps steps

theorem contains_eq (h : o.Refines a) (name : String) : o.contains name = a.contains name := by
  rw [Bool.eq_iff_iff, contains_iff]
  simp [Arrivals.contains, ← h.mem_iff]

/-- There are as many names as entries. -/
theorem size_eq (h : o.Refines a) : o.size = a.length := by
  have names : o.locations.keys.Perm (a.map (·.1)) := by
    refine (List.perm_ext_iff_of_nodup Std.ExtTreeMap.nodup_keys h.nodup).2 fun name => ?_
    rw [Std.ExtTreeMap.mem_keys, Std.ExtTreeMap.mem_iff_isSome_getElem?,
      ← Arrivals.isSome_location_iff, ← h.location_eq]
    rfl
  rw [size, ← Std.ExtTreeMap.length_keys, names.length_eq, List.length_map]

theorem isEmpty_eq (h : o.Refines a) : o.isEmpty = a.isEmpty := by
  rw [isEmpty, Std.ExtTreeMap.isEmpty_eq_size_beq_zero, ← size, h.size_eq]
  cases a <;> rfl

end Refines

/-! ### Boards that look alike -/

/-- No cell is left behind where nobody stands. -/
def Tidy (cells : Std.ExtTreeMap Coord (Series String)) : Prop :=
  ∀ (c : Coord) (cell : Series String), cells[c]? = some cell → cell ≠ .empty

namespace Tidy

variable {cells : Std.ExtTreeMap Coord (Series String)} {o o' : Occupancy}

/-- Whoever leaves a cell last takes it away. -/
theorem detach (h : Tidy cells) (name : String) (c : Coord) : Tidy (detach cells name c) := by
  intro c' cell hc
  unfold Occupancy.detach at hc
  rw [Std.ExtTreeMap.getElem?_alter] at hc
  split at hc
  · dsimp only at hc
    split at hc
    · cases hc
    · next occupied =>
      rw [Option.some.injEq] at hc
      rw [hc] at occupied
      exact fun gone => occupied (by rw [gone]; rfl)
  · exact h c' cell hc

theorem attach (h : Tidy cells) (name : String) (c : Coord) : Tidy (attach cells name c) := by
  intro c' cell hc
  unfold Occupancy.attach at hc
  rw [Std.ExtTreeMap.getElem?_alter] at hc
  split at hc
  · cases hc
    exact fun e => nomatch congrArg Series.backward e
  · exact h c' cell hc

theorem step (h : Tidy o.cells) (s : Step) : Tidy (o.step s).2.cells := by
  cases s with
  | place name c =>
    show Tidy (o.place name c).cells
    unfold place
    split
    · split
      · exact h
      · exact (h.detach name _).attach name c
    · exact h.attach name c
  | remove name =>
    show Tidy (o.remove name).cells
    unfold remove
    split
    · exact h.detach name _
    · exact h

theorem after (steps : List Step) : Tidy (after steps).cells := by
  have start : Tidy empty.cells := fun c cell hc => by simp [empty] at hc
  exact List.foldlRecOn steps _ (motive := fun o : Occupancy => Tidy o.cells) start
    fun _ h s _ => h.step s

/-- A cell is known by the names in it. -/
theorem getElem?_eq (h : Tidy o.cells) (c : Coord) : o.cells[c]? =
    if o.standing c = [] then none else some (.ofList (o.standing c)) := by
  rw [standing, Std.ExtTreeMap.getD_eq_getD_getElem?]
  cases hc : o.cells[c]? with
  | none => rfl
  | some cell =>
    have occupied : cell.toList ≠ [] := fun e => h c cell hc (Series.toList_inj.1 e)
    rw [Option.getD_some, if_neg occupied, Series.ofList_toList]

/-- Tidy boards are equal exactly if they give the same answers. -/
theorem eq_iff (h : Tidy o.cells) (h' : Tidy o'.cells) : o = o' ↔
    (∀ name, o.location name = o'.location name) ∧ ∀ c, o.standing c = o'.standing c := by
  refine ⟨fun e => e ▸ ⟨fun _ => rfl, fun _ => rfl⟩, fun ⟨location, standing⟩ => ?_⟩
  have locations : o.locations = o'.locations := Std.ExtTreeMap.ext_getElem? location
  have cells : o.cells = o'.cells := Std.ExtTreeMap.ext_getElem? fun c => by
    rw [h.getElem?_eq, h'.getElem?_eq, standing]
  cases o
  cases o'
  cases locations
  cases cells
  rfl

end Tidy

/-- **The board is its list of arrivals.**  After any row of changes of an empty board,
every further change answers as the list does, and so do all questions: where a name
stands, whether it does, how many names there are, and who stands at a location, in
order of arrival.  Two boards are equal exactly if they give the same answers for every
name and every location, however they came about. -/
theorem refines_arrivals :
    (∀ steps : List Step,
      (∀ s, ((after steps).step s).1 = ((Arrivals.after steps).step s).1) ∧
      (∀ name, (after steps).location name = (Arrivals.after steps).location name) ∧
      (∀ name, (after steps).contains name = (Arrivals.after steps).contains name) ∧
      (after steps).size = (Arrivals.after steps).length ∧
      (after steps).isEmpty = (Arrivals.after steps).isEmpty ∧
      ∀ c, (after steps).standing c = (Arrivals.after steps).standing c) ∧
    ∀ steps steps' : List Step, (after steps == after steps') = true ↔
      (∀ name, (after steps).location name = (after steps').location name) ∧
        ∀ c, (after steps).standing c = (after steps').standing c := by
  refine ⟨fun steps => ?_, fun steps steps' => ?_⟩
  · have h : (after steps).Refines (.after steps) := .after steps
    exact ⟨fun s => (h.step s).1, h.location_eq, h.contains_eq, h.size_eq, h.isEmpty_eq,
      h.standing_eq⟩
  · rw [beq_iff_eq]
    exact (Tidy.after steps).eq_iff (Tidy.after steps')

/-- Who leaves a location and comes back has lost the turn. -/
example : (after [.place "knight" (.flat 0 0), .place "archer" (.flat 0 0),
    .place "knight" (.flat 0 1), .place "knight" (.flat 0 0)]).standing (.flat 0 0) =
      ["archer", "knight"] := by decide

end Occupancy
end Tabletop
