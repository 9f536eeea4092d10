/-
# Locations on the board

The board is a sparse grid of integer triples.  Places given by two integers
lie on the level `z = 0`.  Locations are ordered by `x`, then `y`, then `z`.
Bounds are a box, both of its corners included.
-/

import Tabletop.Integer

namespace Tabletop

/-- A location on the board. -/
structure Coord where
  x : Int := 0
  y : Int := 0
  z : Int := 0
deriving DecidableEq, Repr, Inhabited

namespace Coord

/-- A location on the ground level. -/
def flat (x y : Int) : Coord := ⟨x, y, 0⟩

/-- Order by `x`, then `y`, then `z`. -/
abbrev order : Coord → Coord → Ordering :=
  compareLex (compareOn Coord.x) (compareLex (compareOn Coord.y) (compareOn Coord.z))

instance : Ord Coord := ⟨order⟩

instance : Std.TransOrd Coord := inferInstanceAs (Std.TransCmp order)

instance : Std.LawfulEqOrd Coord where
  eq_of_compare {a b} h := by
    obtain ⟨x, y, z⟩ := a
    obtain ⟨x', y', z'⟩ := b
    have h : order ⟨x, y, z⟩ ⟨x', y', z'⟩ = .eq := h
    simpa [order, compareLex_eq_eq, compareOn, Std.LawfulEqCmp.compare_eq_iff_eq] using h

/-- The written form of a location. -/
def text (c : Coord) : String :=
  "(" ++ Integer.write c.x ++ ", " ++ Integer.write c.y ++ ", " ++ Integer.write c.z ++ ")"

end Coord

/-- A box of locations, corners included. -/
structure Bounds where
  least : Coord
  greatest : Coord
deriving DecidableEq, Repr, Inhabited

namespace Bounds

/-- The ground-level box of a width and a height, from the origin. -/
def grid (width height : Int) : Bounds := ⟨.flat 0 0, .flat (width - 1) (height - 1)⟩

/-- The locations in a box. -/
def Contains (b : Bounds) (c : Coord) : Prop :=
  (b.least.x ≤ c.x ∧ c.x ≤ b.greatest.x) ∧ (b.least.y ≤ c.y ∧ c.y ≤ b.greatest.y) ∧
    (b.least.z ≤ c.z ∧ c.z ≤ b.greatest.z)

instance (b : Bounds) (c : Coord) : Decidable (b.Contains c) :=
  inferInstanceAs (Decidable (_ ∧ _ ∧ _))

end Bounds
end Tabletop
