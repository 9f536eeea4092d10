/-
# Entities: named records of stats, lists and strings

An entity's list `group` starts with its own name, so that "the entity and its
groups" is one row.  Its lists `require` and `effect` hold the scripts of the
move it is.  A recruit is a copy under a new name: it is mutable, stands
nowhere, has recruited nobody, and carries its own name wherever its template's
group carries the template's.
-/

import Std.Data.ExtTreeMap
import Tabletop.Board.Coord
import Tabletop.Fault
import Tabletop.Series

namespace Tabletop

/-- An entry of a list: a name or a script. -/
inductive Item
  | name (text : String)
  | script (script : Script)
deriving Inhabited

namespace Item

/-- Equality, scripts by their texts. -/
def beq : Item → Item → Bool
  | .name a, .name b => a == b
  | .script a, .script b => a == b
  | _, _ => false

instance : BEq Item := ⟨beq⟩

/-- The name an entry is. -/
def name? : Item → Option String
  | .name text => some text
  | .script _ => none

/-- The script an entry is. -/
def script? : Item → Option Script
  | .name _ => none
  | .script s => some s

/-- The value of an entry. -/
def toValue : Item → Value
  | .name text => .str text
  | .script s => .script s

/-- The entry a value makes: names and scripts as they are, integers by their
written form. -/
def ofValue : Value → Except Fault Item
  | .str text | .ref text => .ok (.name text)
  | .int n => .ok (.name (Integer.write n))
  | .script s => .ok (.script s)
  | v => .error (.mistyped .listItem v)

end Item

/-- The list of the entities an entity inherits from. -/
def groupList : String := "group"

/-- The list of the scripts that gate a move. -/
def requireList : String := "require"

/-- The list of the scripts a move runs. -/
def effectList : String := "effect"

/-- A named record of stats, lists and strings. -/
structure Entity where
  name : String
  location : Option Coord := none
  immutable : Bool := false
  stats : Std.ExtTreeMap String Int := ∅
  lists : Std.ExtTreeMap String (Series Item) := ∅
  strings : Std.ExtTreeMap String String := ∅
  recruited : UInt32 := 0

namespace Entity

instance : BEq Entity where
  beq a b :=
    a.name == b.name && a.location == b.location && a.immutable == b.immutable &&
      a.stats.toList == b.stats.toList && a.lists.toList == b.lists.toList &&
      a.strings.toList == b.strings.toList && a.recruited == b.recruited

/-- The entity's own value of a stat. -/
def stat (e : Entity) (name : String) : Option Int := e.stats[name]?

/-- The entity's own entries of a list. -/
def list (e : Entity) (name : String) : List Item := (e.lists.getD name .empty).toList

/-- The entity's own value of a string. -/
def string (e : Entity) (name : String) : Option String := e.strings[name]?

/-- The entity's own groups, itself first. -/
def group (e : Entity) : List Item := e.list groupList

/-- Sets a stat. -/
def setStat (e : Entity) (name : String) (value : Int) : Entity :=
  { e with stats := e.stats.insert name value }

/-- Sets a string. -/
def setString (e : Entity) (name value : String) : Entity :=
  { e with strings := e.strings.insert name value }

/-- Appends to a list, which exists afterwards even if nothing is appended. -/
def append (e : Entity) (list : String) (items : List Item) : Entity :=
  { e with lists := e.lists.insert list ((e.lists.getD list .empty).append items) }

/-- The entity without the first entry equal to an item, if there is one. -/
def remove? (e : Entity) (list : String) (item : Item) : Option Entity :=
  if (e.list list).any (· == item) then
    some { e with lists := e.lists.insert list (.ofList ((e.list list).eraseP (· == item))) }
  else none

/-- An entity that is only a name. -/
def named (name : String) : Entity := ({ name } : Entity).append groupList [.name name]

/-- The copy of an entity under a new name, at a location. -/
def recruit (e : Entity) (name : String) (location : Option Coord) : Entity :=
  let rename (item : Item) : Item := if item.name? = some e.name then .name name else item
  { e with
    name
    location
    immutable := false
    recruited := 0
    lists := e.lists.modify groupList (·.map rename) }

/-- An entity as it is written down, its scripts as texts. -/
structure Definition where
  name : String := ""
  immutable : Bool := false
  location : Option Coord := none
  group : List String := []
  stats : Std.ExtTreeMap String Int := ∅
  lists : Std.ExtTreeMap String (List String) := ∅
  strings : Std.ExtTreeMap String String := ∅
  require : List String := []
  effect : List String := []

/-- The entity a definition describes, given its scripts. -/
def ofDefinition (d : Definition) (require effect : List Script) : Entity :=
  let e := (named d.name).append groupList (d.group.map .name)
  let e := d.stats.toList.foldl (fun e (name, value) => e.setStat name value) e
  let e := d.lists.toList.foldl (fun e (name, items) => e.append name (items.map .name)) e
  let e := d.strings.toList.foldl (fun e (name, value) => e.setString name value) e
  let e := require.foldl (fun e s => e.append requireList [.script s]) e
  let e := effect.foldl (fun e s => e.append effectList [.script s]) e
  { e with location := d.location, immutable := d.immutable }

/-- What is appended comes last in its list; every other list stays. -/
theorem list_append (e : Entity) (list other : String) (items : List Item) :
    (e.append list items).list other =
      if list = other then e.list list ++ items else e.list other := by
  simp only [append, Entity.list, Std.ExtTreeMap.getD_insert, Std.compare_eq_iff_eq]
  split <;> simp

end Entity
end Tabletop
