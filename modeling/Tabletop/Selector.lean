/-
# Selectors: which entities an operation is about

An operation that takes entities accepts a name, a location, a list of
selectors, or nothing.  Nothing is written as none or false, a location as a
tuple of two or three integers.
-/

import Tabletop.Board.Coord
import Tabletop.Fault

namespace Tabletop

/-- Which entities an operation is about. -/
inductive Selector
  /-- Nobody. -/
  | nobody
  /-- One entity. -/
  | entity (name : String)
  /-- Whoever stands at a location. -/
  | standing (location : Coord)
  /-- Those of several selectors, in order. -/
  | many (items : List Selector)
deriving Inhabited

/-- The location given by two or three integers. -/
def Coord.ofValues? : List Value → Option Coord
  | [.int x, .int y] => some (.flat x y)
  | [.int x, .int y, .int z] => some ⟨x, y, z⟩
  | _ => none

namespace Selector

mutual

/-- The selector a value is. -/
def ofValue : Value → Except Fault Selector
  | .none | .bool false => .ok .nobody
  | .str name | .ref name => .ok (.entity name)
  | .list items => do return .many (← ofValues items)
  | .tuple items =>
    match Coord.ofValues? items with
    | some c => .ok (.standing c)
    | none => .error (.mistyped .selector (.tuple items))
  | v => .error (.mistyped .selector v)

/-- The selectors several values are. -/
def ofValues : List Value → Except Fault (List Selector)
  | [] => .ok []
  | v :: vs => do
    let s ← ofValue v
    let ss ← ofValues vs
    return s :: ss

end

end Selector
end Tabletop
