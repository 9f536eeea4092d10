/-
# Changes: calls that edit entities

An edit applies to every entity its first argument is about, in order.  Its
answer is whether any of them changed; a fault stops it and leaves the entities
before as they were changed.
-/

import Tabletop.Arguments
import Tabletop.Engine.Resolution
import Tabletop.Play.Mutation

namespace Tabletop
namespace Change

/-- Edits entities in order. -/
def each (names : List String) (edit : String → Run Bool) : Run Value := do
  return .bool (← Run.sweep edit names)

/-- Edits a stat by the amount of the third argument. -/
def stat (a : Arguments) (change : Int → StatChange) : Run Value := do
  let names ← Run.ask (·.names (a.get 0))
  let stat ← Run.ask (·.text (a.get 1))
  let amount ← Run.ask (·.integer (a.get 2))
  each names fun name => Mutation.changeStat name stat (change amount)

/-- Edits a list by the item of the third argument. -/
def list (a : Arguments) (edit : String → String → Item → Run Bool) : Run Value := do
  let names ← Run.ask (·.names (a.get 0))
  let list ← Run.ask (·.text (a.get 1))
  let v ← Run.ask (·.resolve (a.get 2))
  let item ← Run.ask fun _ => Item.ofValue v
  each names fun name => edit name list item

/-- The list that is meant, if any. -/
def listName? (g : Engine) : Value → Except Fault (Option String)
  | .none => .ok none
  | v => do return some (← g.text v)

/-- Makes a recruit of the first argument. -/
def enlist (a : Arguments) : Run Value := do
  let template ← Run.ask (·.entityName (a.get 0))
  let location ← Run.ask (·.location? (a.getNamed "location"))
  let owner ← Run.ask (·.entityName? (a.getNamed "owner"))
  let list ← Run.ask fun g => listName? g (a.getNamed "list")
  let name ← Mutation.recruit template location owner list
  return name.elim .none .ref

/-- Makes an edit. -/
def run (c : Change) (a : Arguments) : Run Value :=
  match c with
  | .statAdd => stat a .add
  | .statSub => stat a .sub
  | .statSet => stat a .set
  | .stringSet => do
    let names ← Run.ask (·.names (a.get 0))
    let string ← Run.ask (·.text (a.get 1))
    let value ← Run.ask (·.text (a.get 2))
    each names fun name => Mutation.setString name string value
  | .listAdd => list a Mutation.appendItem
  | .listRemove => list a Mutation.removeItem
  | .travel => do
    let names ← Run.ask (·.names (a.get 0))
    let goal ← Run.ask (·.location? (a.get 1))
    each names fun name => Mutation.travel name goal
  | .delete => do
    let names ← Run.ask (·.names (a.get 0))
    each names Mutation.delete
  | .recruit => enlist a

end Change
end Tabletop
