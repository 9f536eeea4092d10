/-
# Catalogs: which names are stats, lists and strings

A game declares its categories.  The lists `group`, `require` and `effect` are
always declared, and no name may be declared twice.  Lists may be inheriting:
an entity then also inherits from the entities they name.  A schema is a
catalog that passed this check; entities are held against it before they enter
a game, stats first, then lists, then strings, each in ascending order.
-/

import Tabletop.Entity

namespace Tabletop

/-- A list a game declares. -/
structure ListCategory where
  name : String
  inherits : Bool := false
deriving DecidableEq, Repr

/-- The categories a game declares. -/
structure Catalog where
  stats : List String := []
  lists : List ListCategory := []
  strings : List String := []
deriving DecidableEq, Repr

/-- What a declared name stands for. -/
inductive Category
  | stat
  | list (inherits : Bool)
  | string
deriving DecidableEq, Repr

/-- A catalog without duplicates, as a table. -/
structure Schema where
  kinds : Std.ExtTreeMap String Category := ∅
  /-- The inheriting lists, in the order of their declaration. -/
  inheriting : List String := []

namespace Catalog

/-- Every declaration of a catalog, in order. -/
def declarations (c : Catalog) : List (String × Category) :=
  [groupList, requireList, effectList].map (·, .list false) ++ c.stats.map (·, .stat) ++
    c.lists.map (fun l => (l.name, .list l.inherits)) ++ c.strings.map (·, .string)

end Catalog

namespace Schema

/-- Adds a declaration. -/
def declare (kinds : Std.ExtTreeMap String Category) (d : String × Category) :
    Except CatalogFault (Std.ExtTreeMap String Category) :=
  if kinds.contains d.1 then .error (.duplicate d.1) else .ok (kinds.insert d.1 d.2)

/-- The schema of a catalog.  The first name declared again is reported. -/
def ofCatalog (c : Catalog) : Except CatalogFault Schema := do
  let kinds ← c.declarations.foldlM declare ∅
  return { kinds, inheriting := (c.lists.filter (·.inherits)).map (·.name) }

/-- What a name stands for. -/
def kind? (s : Schema) (name : String) : Option Category := s.kinds[name]?

/-- Whether a name is a stat. -/
def isStat (s : Schema) (name : String) : Bool := s.kind? name == some .stat

/-- Whether a name is a list. -/
def isList (s : Schema) (name : String) : Bool :=
  match s.kind? name with
  | some (.list _) => true
  | _ => false

/-- Whether a name is a string. -/
def isString (s : Schema) (name : String) : Bool := s.kind? name == some .string

/-- The first category of an entity that is not declared as what it is used for. -/
def undeclared? (s : Schema) (e : Entity) : Option String :=
  e.stats.keys.find? (!s.isStat ·) <|> e.lists.keys.find? (!s.isList ·) <|>
    e.strings.keys.find? (!s.isString ·)

/-- Holds an entity against the schema. -/
def validate (s : Schema) (e : Entity) : Except CatalogFault Unit :=
  match s.undeclared? e with
  | some category => .error (.undeclared e.name category)
  | none => .ok ()

end Schema
end Tabletop
