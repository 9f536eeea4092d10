/-
# Faults: why an operation fails

Each cause carries what its report needs, and `Fault.message` is the one place
that words it.  A failed require and a write to an immutable entity are no
faults; they are answers.
-/

import Tabletop.Value

namespace Tabletop

/-- What a value was expected to be. -/
inductive Expected
  | integer
  | string
  | entity
  | statName
  | listItem
  | list
  | selector
  | location
  | callback
deriving DecidableEq, Repr

/-- The name of what was expected. -/
def Expected.text : Expected → String
  | .integer => "integer"
  | .string => "string"
  | .entity => "entity"
  | .statName => "stat name"
  | .listItem => "list item"
  | .list => "list"
  | .selector => "selector"
  | .location => "location"
  | .callback => "callback"

/-- What a name or place was looked up as. -/
inductive Sought
  | entity
  | stat
  | location
deriving DecidableEq, Repr

/-- The name of what was looked up. -/
def Sought.text : Sought → String
  | .entity => "entity"
  | .stat => "stat"
  | .location => "map location"

/-- Why a computation with integers has no result. -/
inductive ArithmeticFault
  | overflow
  | divisionByZero
  | emptyRange
deriving DecidableEq, Repr

/-- The report of an arithmetic fault. -/
def ArithmeticFault.message : ArithmeticFault → String
  | .overflow => "integer overflow"
  | .divisionByZero => "division by zero"
  | .emptyRange => "empty random range"

/-- What does not fit in a catalog, or in an entity under it. -/
inductive CatalogFault
  | duplicate (category : String)
  | undeclared (entity category : String)
deriving DecidableEq, Repr

/-- The report of a catalog fault. -/
def CatalogFault.message : CatalogFault → String
  | .duplicate category => "category '" ++ category ++ "' is declared more than once"
  | .undeclared entity category =>
    "entity '" ++ entity ++ "' uses undeclared category '" ++ category ++ "'"

/-- Why an operation fails. -/
inductive Fault
  /-- A text is no script. -/
  | script (raw : String) (cause : SyntaxError)
  | catalog (cause : CatalogFault)
  | undefined (sought : Sought) (name : String)
  | unknownFunction (name : String)
  | mistyped (expected : Expected) (found : Value)
  | arithmetic (cause : ArithmeticFault)
  /-- Following inheritance from the first entity leads back to an earlier one. -/
  | cycle (path : List String)
  | duplicateEntity (name : String)

/-- The report of a fault. -/
def Fault.message : Fault → String
  | .script raw cause => "syntax error in `" ++ raw ++ "`: " ++ cause.message
  | .catalog cause => cause.message
  | .undefined sought name => "undefined " ++ sought.text ++ ": '" ++ name ++ "'"
  | .unknownFunction name => "unknown function '" ++ name ++ "'"
  | .mistyped expected found =>
    "type error: expected " ++ expected.text ++ ", found " ++ found.detail
  | .arithmetic cause => "arithmetic error: " ++ cause.message
  | .cycle path => "group cycle: " ++ String.intercalate " -> " path
  | .duplicateEntity name => "entity '" ++ name ++ "' already exists"

/-- The integer a value counts as, or a fault. -/
def Value.toInt (v : Value) : Except Fault Int :=
  match v.int? with
  | some n => .ok n
  | .none => .error (.mistyped .integer v)

end Tabletop
