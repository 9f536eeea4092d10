/-
# Arguments of a call

Arguments come from positional slots, as the leftovers of a variadic keyword,
and by name.  Those that were not given count as none.  Taking an argument
leaves none in its place.
-/

import Tabletop.Value

namespace Tabletop

/-- The arguments of a call. -/
structure Arguments where
  positional : List Value := []
  variadic : List Value := []
  named : List (String × Value) := []

namespace Arguments

/-- The argument at a position. -/
def get (a : Arguments) (i : Nat) : Value := a.positional.getD i .none

/-- The argument with a name. -/
def getNamed (a : Arguments) (name : String) : Value := (a.named.lookup name).getD .none

/-- All arguments that have no name. -/
def all (a : Arguments) : List Value := a.positional ++ a.variadic

/-- Takes the argument at a position. -/
def take (a : Arguments) (i : Nat) : Value × Arguments :=
  (a.get i, { a with positional := a.positional.set i .none })

/-- Named arguments with none in place of the first that has a name. -/
def clear (name : String) : List (String × Value) → List (String × Value)
  | [] => []
  | (key, value) :: rest =>
    if key = name then (key, .none) :: rest else (key, value) :: clear name rest

/-- Takes the argument with a name. -/
def takeNamed (a : Arguments) (name : String) : Value × Arguments :=
  (a.getNamed name, { a with named := clear name a.named })

/-- Takes all arguments that have no name. -/
def takeAll (a : Arguments) : List Value × Arguments :=
  (a.all, { a with positional := [], variadic := [] })

end Arguments
end Tabletop
