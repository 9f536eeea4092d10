/-
# Engines: a game that can be played

An engine holds what a game fixes (vocabulary, configuration, schema), its
state, its history of earlier states, and the scripts it has
compiled.  A text is compiled once.

What an engine looks up or writes in one piece is given here and in
`Tabletop.Engine.Inheritance`, `Tabletop.Engine.Resolution` and
`Tabletop.Engine.History` as plain functions.  What looks up and writes in turns is a
run (`Tabletop.Run`).
-/

import Tabletop.Config
import Tabletop.History
import Tabletop.Selector

namespace Tabletop

/-- A game that can be played. -/
structure Engine where
  registry : Registry
  config : Config
  schema : Schema
  state : State
  history : History := {}
  cache : Std.ExtTreeMap String Script := ∅

namespace Engine

/-- An engine at the start of a game. -/
def start (config : Config) (registry : Registry) : Except CatalogFault Engine := do
  let schema ← Schema.ofCatalog config.catalog
  return { registry, config, schema, state := .start config.seed }

/-- The engine with an entity stored under a name. -/
def store (g : Engine) (name : String) (e : Entity) : Engine :=
  { g with state := { g.state with entities := g.state.entities.insert name e } }

/-- The engine without the entity of a name. -/
def erase (g : Engine) (name : String) : Engine :=
  { g with state := { g.state with entities := g.state.entities.erase name } }

/-- The engine with another board. -/
def withOccupancy (g : Engine) (o : Occupancy) : Engine :=
  { g with state := { g.state with occupancy := o } }

/-- The entity of a name. -/
def entity? (g : Engine) (name : String) : Option Entity := g.state.entities[name]?

/-- Whether an entity exists. -/
def contains (g : Engine) (name : String) : Bool := g.state.entities.contains name

/-- The entity of a name, or a fault. -/
def entity (g : Engine) (name : String) : Except Fault Entity :=
  match g.entity? name with
  | some e => .ok e
  | none => .error (.undefined .entity name)

/-- Refuses a location beyond the board. -/
def checkBounds (g : Engine) (c : Coord) : Except Fault Unit :=
  if g.config.InBounds c then .ok () else .error (.undefined .location c.text)

mutual

/-- The names a selector is about, with repetitions, in order. -/
def select (g : Engine) : Selector → Except Fault (List String)
  | .nobody => .ok []
  | .entity name => do
    let _ ← g.entity name
    return [name]
  | .standing c => do
    g.checkBounds c
    return g.state.occupancy.standing c
  | .many items => g.selectAll items

/-- The names several selectors are about. -/
def selectAll (g : Engine) : List Selector → Except Fault (List String)
  | [] => .ok []
  | s :: ss => do
    let names ← g.select s
    let rest ← g.selectAll ss
    return names ++ rest

end

/-- The script of a text, compiled at most once. -/
def compile (g : Engine) (raw : String) : Except Fault (Script × Engine) :=
  match g.cache[raw]? with
  | some s => .ok (s, g)
  | none =>
    match g.registry.compile raw with
    | .error cause => .error (.script raw cause)
    | .ok s => .ok (s, { g with cache := g.cache.insert raw s })

end Engine
end Tabletop
