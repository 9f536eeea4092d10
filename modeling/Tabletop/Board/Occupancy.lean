/-
# Occupancy: who stands where

The index is kept both ways: from a name to its location, and from a location
to the names there, in the order in which they arrived.  A location where
nobody stands has no cell.
-/

import Std.Data.ExtTreeMap
import Tabletop.Board.Coord
import Tabletop.Series

namespace Tabletop

/-- Who stands where, by name and by location. -/
structure Occupancy where
  locations : Std.ExtTreeMap String Coord := ∅
  cells : Std.ExtTreeMap Coord (Series String) := ∅
deriving DecidableEq

namespace Occupancy

/-- Nobody on the board. -/
def empty : Occupancy := {}

/-- Where a name stands. -/
def location (o : Occupancy) (name : String) : Option Coord := o.locations[name]?

/-- The names at a location, in the order in which they arrived. -/
def standing (o : Occupancy) (c : Coord) : List String := (o.cells.getD c .empty).toList

/-- Whether a name stands anywhere. -/
def contains (o : Occupancy) (name : String) : Bool := o.locations.contains name

/-- How many names stand on the board. -/
def size (o : Occupancy) : Nat := o.locations.size

/-- Whether nobody stands on the board. -/
def isEmpty (o : Occupancy) : Bool := o.locations.isEmpty

/-- The cells without a name at a location. -/
def detach (cells : Std.ExtTreeMap Coord (Series String)) (name : String) (c : Coord) :
    Std.ExtTreeMap Coord (Series String) :=
  cells.alter c fun cell =>
    let left := (cell.getD .empty).filter (· ≠ name)
    if left.length = 0 then none else some left

/-- The cells with a name arriving at a location. -/
def attach (cells : Std.ExtTreeMap Coord (Series String)) (name : String) (c : Coord) :
    Std.ExtTreeMap Coord (Series String) :=
  cells.alter c fun cell => some ((cell.getD .empty).push name)

/-- Puts a name at a location.  A name already there keeps its turn; any other
arrives last. -/
def place (o : Occupancy) (name : String) (c : Coord) : Occupancy :=
  match o.location name with
  | some old =>
    if old = c then o
    else ⟨o.locations.insert name c, attach (detach o.cells name old) name c⟩
  | none => ⟨o.locations.insert name c, attach o.cells name c⟩

/-- Takes a name off the board. -/
def remove (o : Occupancy) (name : String) : Occupancy :=
  match o.location name with
  | some old => ⟨o.locations.erase name, detach o.cells name old⟩
  | none => o

/-- Puts a name at a location, or takes it off the board. -/
def move (o : Occupancy) (name : String) : Option Coord → Occupancy
  | some c => o.place name c
  | none => o.remove name

/-- A change of who stands where. -/
inductive Step
  | place (name : String) (c : Coord)
  | remove (name : String)
deriving DecidableEq, Repr

/-- Makes a change; the answer is where the name stood before. -/
def step (o : Occupancy) : Step → Option Coord × Occupancy
  | .place name c => (o.location name, o.place name c)
  | .remove name => (o.location name, o.remove name)

/-- Placing a name changes where that name stands, and no other's place. -/
theorem location_place (o : Occupancy) (name other : String) (c : Coord) :
    (o.place name c).location other = if name = other then some c else o.location other := by
  unfold place
  split
  · next old h =>
    split
    · split
      · simp_all
      · rfl
    · simp [location, Std.ExtTreeMap.getElem?_insert]
  · simp [location, Std.ExtTreeMap.getElem?_insert]

/-- Removing a name leaves it nowhere, and every other where it was. -/
theorem location_remove (o : Occupancy) (name other : String) :
    (o.remove name).location other = if name = other then none else o.location other := by
  unfold remove
  split
  · simp [location, Std.ExtTreeMap.getElem?_erase]
  · split
    · simp_all
    · rfl

/-- The names on the board are those that stand somewhere. -/
theorem contains_iff (o : Occupancy) (name : String) :
    o.contains name ↔ ∃ c, o.location name = some c := by
  simp [contains, location, Option.isSome_iff_exists, ← Std.ExtTreeMap.isSome_getElem?_eq_contains]

end Occupancy
end Tabletop
