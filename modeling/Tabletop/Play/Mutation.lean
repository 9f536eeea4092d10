/-
# Mutation: how entities change

A mutation is a row of checks and writes.  What is written stays written, also if a
check behind it fails; but each mutation makes all its checks first, and what it looks
up between its writes is there.  An immutable entity is left alone, which is an answer
(`false`) and no fault.  The category of an edit has to be declared as what it is used
for; that is checked before the entity is looked up.

A recruit is named after its template and a counter that the template keeps: the
template counts on until the name of the number is free.  The counter has 32 bits, and
after its greatest number comes 0.
-/

import Tabletop.Run

namespace Tabletop

/-- How a stat changes. -/
inductive StatChange
  | set (value : Int)
  | add (amount : Int)
  | sub (amount : Int)
deriving DecidableEq, Repr

/-- The stat after a change, before its range is checked. -/
def StatChange.apply : StatChange → Int → Int
  | .set value, _ => value
  | .add amount, current => current + amount
  | .sub amount, current => current - amount

/-- The list a recruit joins unless another is given. -/
def unitsList : String := "units"

/-- The name of the recruit with a number. -/
def recruitName (template : String) (n : UInt32) : String :=
  template ++ "_" ++ Integer.digits n.toNat

namespace Mutation

/-! ### Checks -/

/-- Refuses a category that is not declared as what it is used for. -/
def requireKind (category : String) (declared : Schema → String → Bool) : Run Unit :=
  Run.ask fun g =>
    if declared g.schema category then .ok () else .error (.undefined .stat category)

/-- Refuses a name that is taken. -/
def requireFree (name : String) : Run Unit :=
  Run.ask fun g => if g.contains name then .error (.duplicateEntity name) else .ok ()

/-- Refuses an entity that does not fit the catalog. -/
def requireValid (e : Entity) : Run Unit :=
  Run.ask fun g => (g.schema.validate e).mapError .catalog

/-- Refuses a location beyond the board, if there is one. -/
def requireInside : Option Coord → Run Unit
  | none => return ()
  | some c => Run.ask (·.checkBounds c)

/-- The entity of a name, unless it is immutable. -/
def mutable (name : String) : Run (Option Entity) := do
  let e ← Run.ask (·.entity name)
  return if e.immutable then none else some e

/-! ### Writes -/

/-- Stores an entity under a name. -/
def store (name : String) (e : Entity) : Run Unit := Run.update (·.store name e)

/-- Changes who stands where. -/
def board (change : Occupancy → Occupancy) : Run Unit :=
  Run.update fun g => g.withOccupancy (change g.state.occupancy)

/-- Puts a name at a location, if there is one. -/
def place (name : String) : Option Coord → Run Unit
  | none => return ()
  | some c => board (·.place name c)

/-- Changes the entity of a name. -/
def modify (name : String) (change : Entity → Entity) : Run Unit := do
  let e ← Run.ask (·.entity name)
  store name (change e)

/-! ### Mutations -/

/-- Adds an entity to the game. -/
def insert (e : Entity) : Run Unit := do
  requireFree e.name
  requireValid e
  requireInside e.location
  place e.name e.location
  store e.name e

/-- Changes an entity by a category, unless it is immutable; `change` gives the changed
entity, if there is one. -/
def edit (name category : String) (declared : Schema → String → Bool)
    (change : Entity → Except Fault (Option Entity)) : Run Bool := do
  requireKind category declared
  match ← mutable name with
  | none => return false
  | some e =>
    match ← Run.ask fun _ => change e with
    | none => return false
    | some e =>
      store name e
      return true

/-- Changes a stat; one that the entity does not have counts as 0. -/
def changeStat (name stat : String) (change : StatChange) : Run Bool :=
  edit name stat Schema.isStat fun e =>
    match Integer.checked (change.apply ((e.stat stat).getD 0)) with
    | some value => .ok (some (e.setStat stat value))
    | none => .error (.arithmetic .overflow)

/-- Sets a string. -/
def setString (name string value : String) : Run Bool :=
  edit name string Schema.isString fun e => .ok (some (e.setString string value))

/-- Appends to a list. -/
def appendItem (name list : String) (item : Item) : Run Bool :=
  edit name list Schema.isList fun e => .ok (some (e.append list [item]))

/-- Removes the first equal entry of a list, but never an entity from its own
group. -/
def removeItem (name list : String) (item : Item) : Run Bool :=
  edit name list Schema.isList fun e =>
    if list = groupList ∧ item.name? = some name then .ok none else .ok (e.remove? list item)

/-- Moves an entity to a location, or off the board. -/
def travel (name : String) (goal : Option Coord) : Run Bool := do
  match ← mutable name with
  | none => return false
  | some _ =>
    requireInside goal
    board (·.move name goal)
    modify name fun e => { e with location := goal }
    return true

/-- Deletes an entity. -/
def delete (name : String) : Run Bool := do
  match ← mutable name with
  | none => return false
  | some _ =>
    Run.update (·.erase name)
    board (·.remove name)
    return true

/-! ### Recruits -/

/-- Counts one more recruit of a template; the number it comes to. -/
def count (template : String) : Run UInt32 := do
  let e ← Run.ask (·.entity template)
  let n := e.recruited + 1
  store template { e with recruited := n }
  return n

/-- Counts recruits of a template until the name of the number is free. -/
def freeName (template : String) : Nat → Run String
  | 0 => Run.outOfFuel
  | tries + 1 => do
    let n ← count template
    if ← Run.ask fun g => .ok (g.contains (recruitName template n)) then
      freeName template tries
    else return recruitName template n

/-- Whether an owner, if there is one, can have a recruit in a list. -/
def admits (owner : Option String) (list : String) : Run Bool :=
  match owner with
  | none => return true
  | some owner => do
    requireKind list Schema.isList
    let e ← Run.ask (·.entity owner)
    return !e.immutable

/-- Appends a recruit to a list of its owner, if it has one. -/
def enlist (owner : Option String) (list name : String) : Run Unit :=
  match owner with
  | none => return ()
  | some owner => modify owner (·.append list [.name name])

/-- Counts one more recruit of a template: a copy of it under the name that the count
comes to, at a location, and in a list of its owner.  If not every number has a taken
name, one of more numbers than there are entities has a free one; if every number has,
the count never ends. -/
def join (template : String) (location : Option Coord) (owner : Option String) (list : String) :
    Run String := do
  let entities ← Run.ask fun g => .ok g.state.entities.size
  let name ← freeName template (entities + 1)
  let e ← Run.ask (·.entity template)
  place name location
  store name (e.recruit name location)
  enlist owner list name
  return name

/-- Recruits a copy of a template, unless its owner is immutable. -/
def recruit (template : String) (location : Option Coord) (owner list : Option String) :
    Run (Option String) := do
  let _ ← Run.ask (·.entity template)
  let list := list.getD unitsList
  if ← admits owner list then
    requireInside location
    return some (← join template location owner list)
  else return none

end Mutation
end Tabletop
