/-
# Expressions: what a script means

Every group of tokens means one expression.  Names are not looked up here: a
bare word that is neither a literal nor a role stands for itself, and a call
names the function it is for.  A call keeps apart the arguments of its
positional slots, the leftover ones of a variadic keyword, and the named ones.
-/

import Tabletop.Text.Quoted

namespace Tabletop

/-- A value written in a script. -/
inductive Literal
  | none
  | bool (value : Bool)
  | int (value : Int)
  | str (text : String)
deriving DecidableEq, Repr, Inhabited

/-- The part an entity plays in a move. -/
inductive Role
  | caster
  | target
  | move
deriving DecidableEq, Repr

/-- The name of a role. -/
def Role.name : Role → String
  | .caster => "caster"
  | .target => "target"
  | .move => "move"

/-- The role a word stands for: its name, or the first letter of it. -/
def Role.ofWord? (word : String) : Option Role :=
  if word = "caster" ∨ word = "c" then some .caster
  else if word = "target" ∨ word = "t" then some .target
  else if word = "move" ∨ word = "m" then some .move
  else .none

/-- What a group of tokens means. -/
inductive Expr
  | literal (value : Literal)
  | role (role : Role)
  | name (name : String)
  | list (items : List Expr)
  | tuple (items : List Expr)
  | call (target : String) (args variadic : List Expr) (named : List (String × Expr))
deriving Inhabited

end Tabletop
