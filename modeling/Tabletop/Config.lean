/-
# Configuration of a game

How far a game can be rolled back, the entity that acts at every tick, the seed
of its dice, the bounds of its board, and its catalog.
-/

import Tabletop.Catalog
import Tabletop.Dice

namespace Tabletop

/-- What a game fixes before it starts. -/
structure Config where
  /-- How many clock steps can be rolled back. -/
  revertDepth : Nat := 0
  /-- The entity performed at every clock step, if it exists. -/
  tickRule : String := "tick"
  seed : UInt64 := 0
  bounds : Option Bounds := none
  catalog : Catalog := {}

/-- The locations of the board; without bounds, all of them. -/
def Config.InBounds (c : Config) (l : Coord) : Prop := ∀ b ∈ c.bounds, b.Contains l

instance (c : Config) (l : Coord) : Decidable (c.InBounds l) :=
  match h : c.bounds with
  | none => .isTrue (by simp [Config.InBounds, h])
  | some b => decidable_of_iff (b.Contains l) (by simp [Config.InBounds, h])

end Tabletop
