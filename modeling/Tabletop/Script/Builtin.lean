/-
# The functions a call can be for

The functions fall into four kinds, by what a call of them can change:

* a `Query` computes an answer and changes nothing;
* `assign` writes the storage of the running script;
* a `Change` edits entities;
* a `Control` rolls dice, tries or performs moves, schedules, or lets time pass.

Their names are those that compiled calls carry.
-/

namespace Tabletop

/-- A function that only answers. -/
inductive Query
  | add | sub | mul | div | rem
  | eq | ne | lt | le | gt | ge
  | and | or | not
  | max | min
  | choose
  | stored
  | stat
  | entity
  | known
  | contains
  | count
  | time
  | location
  | standing
deriving DecidableEq, Repr

/-- A function that edits entities. -/
inductive Change
  | statAdd
  | statSub
  | statSet
  | stringSet
  | listAdd
  | listRemove
  | travel
  | delete
  | recruit
deriving DecidableEq, Repr

/-- A function that reaches beyond the entities. -/
inductive Control
  | roll
  | test
  | perform
  | delay
  | advance
deriving DecidableEq, Repr

/-- A function a call can be for. -/
inductive Builtin
  | query (query : Query)
  | assign
  | change (change : Change)
  | control (control : Control)
deriving DecidableEq, Repr

/-- Every function with its name. -/
def Builtin.all : List (String × Builtin) :=
  [("add", .query .add), ("sub", .query .sub), ("mul", .query .mul), ("div", .query .div),
   ("rem", .query .rem), ("eq", .query .eq), ("ne", .query .ne), ("lt", .query .lt),
   ("le", .query .le), ("gt", .query .gt), ("ge", .query .ge), ("and", .query .and),
   ("or", .query .or), ("not", .query .not), ("max", .query .max), ("min", .query .min),
   ("if", .query .choose), ("assign", .assign), ("stored", .query .stored),
   ("stat", .query .stat), ("entity", .query .entity), ("exists", .query .known),
   ("contains", .query .contains), ("count", .query .count), ("time", .query .time),
   ("location", .query .location), ("at", .query .standing),
   ("test_move", .control .test), ("random", .control .roll),
   ("stat_add", .change .statAdd), ("stat_sub", .change .statSub),
   ("stat_set", .change .statSet), ("string_set", .change .stringSet),
   ("list_add", .change .listAdd), ("list_remove", .change .listRemove),
   ("travel", .change .travel), ("delete", .change .delete), ("recruit", .change .recruit),
   ("control_move", .control .perform), ("delay", .control .delay),
   ("control_time", .control .advance)]

/-- The function of a name. -/
def Builtin.ofName? (name : String) : Option Builtin := all.lookup name

end Tabletop
