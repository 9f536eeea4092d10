/-
# Resolution: what a value means in a game

A path means what following it gives: a first name, then one category after
another, each result being the entity for the next.  Other tuples and lists
mean their items' meanings, and every other value means itself.

Operations ask for values as integers, texts, entities, selectors or locations;
each of these readings resolves first.
-/

import Tabletop.Engine.Inheritance

namespace Tabletop
namespace Engine

/-- Goes on along a path by one category. -/
def follow (g : Engine) (current category : Value) : Except Fault Value :=
  match current.name? with
  | none => .error (.mistyped .entity current)
  | some entity =>
    match category.name? with
    | none => .error (.mistyped .statName category)
    | some category => g.stat entity category

mutual

/-- The meaning of a value. -/
def resolve (g : Engine) : Value → Except Fault Value
  | .tuple items =>
    if Value.isPath items then
      match items with
      | [] => .ok .none
      | first :: categories => categories.foldlM g.follow first
    else do return .tuple (← g.resolveAll items)
  | .list items => do return .list (← g.resolveAll items)
  | v => .ok v

/-- The meanings of several values. -/
def resolveAll (g : Engine) : List Value → Except Fault (List Value)
  | [] => .ok []
  | v :: vs => do
    let w ← g.resolve v
    let ws ← g.resolveAll vs
    return w :: ws

end

/-- A value as an integer. -/
def integer (g : Engine) (v : Value) : Except Fault Int := do
  (← g.resolve v).toInt

/-- A value as a condition. -/
def truth (g : Engine) (v : Value) : Except Fault Bool := do
  return (← g.resolve v).truthy

/-- A value as a selector. -/
def selector (g : Engine) (v : Value) : Except Fault Selector := do
  Selector.ofValue (← g.resolve v)

/-- The entities a value is about. -/
def names (g : Engine) (v : Value) : Except Fault (List String) := do
  g.select (← g.selector v)

/-- A value as the name of an entity. -/
def entityName (g : Engine) (v : Value) : Except Fault String := do
  let v ← g.resolve v
  match v.name? with
  | none => throw (.mistyped .entity v)
  | some name => if g.contains name then return name else throw (.undefined .entity name)

/-- A value as the name of an entity, or nobody. -/
def entityName? (g : Engine) : Value → Except Fault (Option String)
  | .none | .bool false => .ok none
  | v => do return some (← g.entityName v)

/-- A value as text. -/
def text (g : Engine) (v : Value) : Except Fault String := do
  match ← g.resolve v with
  | .str text | .ref text => return text
  | .int n => return Integer.write n
  | v => throw (.mistyped .string v)

/-- A value as a location, or nowhere. -/
def location? (g : Engine) (v : Value) : Except Fault (Option Coord) := do
  match ← g.resolve v with
  | .none | .bool false => return none
  | .tuple items | .list items =>
    match Coord.ofValues? items with
    | some c => return some c
    | none => throw (.mistyped .location (.tuple items))
  | v => throw (.mistyped .location v)

end Engine
end Tabletop
