/-
# The two written forms of an expression

`Expr.render` is the form for people: calls as `target(arguments)`, names with
an `@`, strings quoted.  A tuple of one item keeps a comma, as in `(1,)`.
`Expr.detail` spells out every constructor; error messages use it.
-/

import Tabletop.Integer
import Tabletop.Script.Expr
import Tabletop.Text.Escaped

namespace Tabletop

/-- A truth value as scripts write it. -/
def truthText (value : Bool) : String := if value then "true" else "false"

/-- A literal as scripts write it. -/
def Literal.render : Literal → String
  | .none => "none"
  | .bool value => truthText value
  | .int value => Integer.write value
  | .str text => Quoted.write text

/-- A literal with its constructor. -/
def Literal.detail : Literal → String
  | .none => "None"
  | .bool value => "Bool(" ++ truthText value ++ ")"
  | .int value => "Int(" ++ Integer.write value ++ ")"
  | .str text => "Str(" ++ Escaped.write text ++ ")"

/-- A role with its constructor. -/
def Role.detail : Role → String
  | .caster => "Caster"
  | .target => "Target"
  | .move => "Move"

namespace Expr

mutual

/-- The written form for people. -/
def render : Expr → String
  | .literal value => value.render
  | .role r => r.name
  | .name text => "@" ++ text
  | .list items => "[" ++ String.intercalate ", " (renderAll items) ++ "]"
  | .tuple items =>
    "(" ++ String.intercalate ", " (renderAll items) ++
      (if items.length = 1 then "," else "") ++ ")"
  | .call target args variadic named =>
    target ++ "(" ++
      String.intercalate ", " (renderAll args ++ renderAll variadic ++ renderNamed named) ++ ")"

/-- The written forms of several expressions. -/
def renderAll : List Expr → List String
  | [] => []
  | e :: es => render e :: renderAll es

/-- The written forms of named arguments. -/
def renderNamed : List (String × Expr) → List String
  | [] => []
  | (key, e) :: es => (key ++ "=" ++ render e) :: renderNamed es

end

mutual

/-- The written form that spells out every constructor. -/
def detail : Expr → String
  | .literal value => "Literal(" ++ value.detail ++ ")"
  | .role r => "Var(" ++ r.detail ++ ")"
  | .name text => "Ref(" ++ Escaped.write text ++ ")"
  | .list items => "List(" ++ Escaped.writeList (detailAll items) ++ ")"
  | .tuple items => "Tuple(" ++ Escaped.writeList (detailAll items) ++ ")"
  | .call target args variadic named =>
    "Call(Call \x7b target: " ++ Escaped.write target ++
      ", args: " ++ Escaped.writeList (detailAll args) ++
      ", variadic: " ++ Escaped.writeList (detailAll variadic) ++
      ", kwargs: " ++ Escaped.writeList (detailNamed named) ++ " \x7d)"

/-- The detailed forms of several expressions. -/
def detailAll : List Expr → List String
  | [] => []
  | e :: es => detail e :: detailAll es

/-- The detailed forms of named arguments. -/
def detailNamed : List (String × Expr) → List String
  | [] => []
  | (key, e) :: es => ("(" ++ Escaped.write key ++ ", " ++ detail e ++ ")") :: detailNamed es

end

end Expr
end Tabletop
