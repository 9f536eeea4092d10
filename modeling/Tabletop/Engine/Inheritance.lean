/-
# Inheritance: what an entity has from others

An entity inherits from its groups, except itself, in order, and then from the
entities its inheriting lists name.  The walk visits an entity before those it
inherits from, so an ancestor reached on two ways is visited twice.

| category | inherited value |
| --- | --- |
| stat | the sum, from the left |
| list | the entries in the order of the visits |
| string | the first that is not empty, else the empty one |

A walk that comes back to an entity on its way is a cycle, and one that comes
to a name without an entity ends there too.  The walk also ends as soon as its
outcome is known: a sum that overflows, or a string that is found, is the
answer whatever lies further on.

The list `group` itself is not inherited.
-/

import Tabletop.Engine

namespace Tabletop

/-- The names an entity stored under a name inherits from, in order. -/
def Schema.parents (s : Schema) (name : String) (e : Entity) : List String :=
  (e.group.filterMap (·.name?)).filter (· ≠ name) ++
    s.inheriting.flatMap fun list => (e.list list).filterMap (·.name?)

namespace Engine

/-- Visits an entity and then what it inherits from, `path` being the names on
the way to it, the last one first.  The visitor may end the walk; so does a fault.  A way without
repetition is no longer than the table of entities, so steps as many as
entities, and one more, reach the end of it. -/
def walkFrom {α ε : Type} (g : Engine) (visit : α → Entity → Except ε α) (fail : Fault → ε) :
    Nat → List String → String → α → Except ε α
  | 0, path, name, _ => .error (fail (.cycle (name :: path).reverse))
  | steps + 1, path, name, a =>
    if path.contains name then .error (fail (.cycle (name :: path).reverse))
    else
      match g.entity? name with
      | none => .error (fail (.undefined .entity name))
      | some e => do
        let a ← visit a e
        (g.schema.parents name e).foldlM
          (fun a parent => g.walkFrom visit fail steps (name :: path) parent a) a

/-- Visits an entity and everything it inherits from. -/
def walk {α ε : Type} (g : Engine) (visit : α → Entity → Except ε α) (fail : Fault → ε)
    (name : String) (start : α) : Except ε α :=
  g.walkFrom visit fail (g.state.entities.size + 1) [] name start

/-- The entities a walk visits, in order. -/
def visited (g : Engine) (name : String) : Except Fault (List Entity) := do
  return (← g.walk (fun es e => .ok (e :: es)) id name []).reverse

/-- Adds an entity's own value of a stat to a sum. -/
def addStat (stat : String) (sum : Int) (e : Entity) : Except Fault Int :=
  match e.stat stat with
  | none => .ok sum
  | some value =>
    match Integer.checked (sum + value) with
    | some sum => .ok sum
    | none => .error (.arithmetic .overflow)

/-- The sum of a stat over an entity and what it inherits from. -/
def statTotal (g : Engine) (name stat : String) : Except Fault Int :=
  g.walk (addStat stat) id name 0

/-- The entries of a list over an entity and what it inherits from. -/
def inheritedList (g : Engine) (name list : String) : Except Fault (List Item) := do
  return (← g.visited name).flatMap (·.list list)

/-- Ends a walk at an entity with a string that is not empty. -/
def seekString (string : String) (_ : Unit) (e : Entity) : Except (Except Fault String) Unit :=
  match (e.string string).filter (· ≠ "") with
  | some text => .error (.ok text)
  | none => .ok ()

/-- The first string that is not empty, over an entity and what it inherits from. -/
def inheritedString (g : Engine) (name string : String) : Except Fault String :=
  match g.walk (seekString string) .error name () with
  | .ok () => .ok ""
  | .error found => found

/-- The scripts of a list over an entity and what it inherits from. -/
def inheritedScripts (g : Engine) (name list : String) : Except Fault (List Script) := do
  return (← g.inheritedList name list).filterMap (·.script?)

/-- The value of a category for an entity. -/
def stat (g : Engine) (name category : String) : Except Fault Value :=
  if category = groupList then do
    return .list ((← g.entity name).group.map (·.toValue))
  else
    match g.schema.kind? category with
    | some .stat => do return .int (← g.statTotal name category)
    | some (.list _) => do return .list ((← g.inheritedList name category).map (·.toValue))
    | some .string => do return .str (← g.inheritedString name category)
    | none => .error (.undefined .stat category)

end Engine
end Tabletop
