/-
# Values: what scripts compute with

A bare name in a script is a reference; it is looked up only where an entity is
needed.  A reference and a string with the same text are the same name, and a
truth value is the same as the integer 0 or 1 (`Value.same`); apart from that,
values are the same when they are equal.  Scripts are equal when their texts
are.

A tuple that starts with a reference and goes on with names is a path
(`Value.isPath`): it means what following it through the entities gives.
-/

import Tabletop.Script

namespace Tabletop

/-- What scripts compute with. -/
inductive Value
  | none
  | bool (value : Bool)
  | int (value : Int)
  | str (text : String)
  | ref (text : String)
  | list (items : List Value)
  | tuple (items : List Value)
  | script (script : Script)
deriving Inhabited

namespace Value

/-- The value of a literal. -/
def ofLiteral : Literal → Value
  | .none => .none
  | .bool b => .bool b
  | .int n => .int n
  | .str text => .str text

mutual

/-- Equality, scripts by their texts. -/
def beq : Value → Value → Bool
  | .none, .none => true
  | .bool a, .bool b => a == b
  | .int a, .int b => a == b
  | .str a, .str b => a == b
  | .ref a, .ref b => a == b
  | .list a, .list b => beqAll a b
  | .tuple a, .tuple b => beqAll a b
  | .script a, .script b => a == b
  | _, _ => false

/-- Equality item by item. -/
def beqAll : List Value → List Value → Bool
  | [], [] => true
  | a :: as, b :: bs => beq a b && beqAll as bs
  | _, _ => false

end

instance : BEq Value := ⟨beq⟩

/-- Whether a value counts as true. -/
def truthy : Value → Bool
  | .none => false
  | .bool b => b
  | .int n => n != 0
  | .str text => text != ""
  | .ref _ | .script _ => true
  | .list items | .tuple items => !items.isEmpty

/-- The integer a value counts as. -/
def int? : Value → Option Int
  | .int n => some n
  | .bool b => some (if b then 1 else 0)
  | _ => .none

/-- The name a value is. -/
def name? : Value → Option String
  | .str text | .ref text => some text
  | _ => .none

mutual

/-- Whether two values mean the same. -/
def same : Value → Value → Bool
  | .str a, .str b | .str a, .ref b | .ref a, .str b | .ref a, .ref b => a == b
  | .list a, .list b => sameAll a b
  | .tuple a, .tuple b => sameAll a b
  | .bool a, .int b => (if a then 1 else 0) == b
  | .int a, .bool b => a == (if b then 1 else 0)
  | a, b => a == b

/-- Whether values mean the same, item by item. -/
def sameAll : List Value → List Value → Bool
  | [], [] => true
  | a :: as, b :: bs => same a b && sameAll as bs
  | _, _ => false

end

/-- The kind of a value. -/
def typeName : Value → String
  | .none => "none"
  | .bool _ => "bool"
  | .int _ => "integer"
  | .str _ => "string"
  | .ref _ => "reference"
  | .list _ => "list"
  | .tuple _ => "tuple"
  | .script _ => "script"

/-- A tuple whose items are a reference and then one or more names. -/
def isPath : List Value → Bool
  | .ref _ :: item :: rest => (item :: rest).all fun v => v.name?.isSome
  | _ => false

mutual

/-- The written form of a value. -/
def text : Value → String
  | .none => "none"
  | .bool b => truthText b
  | .int n => Integer.write n
  | .str t | .ref t => t
  | .list items => "[" ++ String.intercalate " " (textAll items) ++ "]"
  | .tuple items => "(" ++ String.intercalate " " (textAll items) ++ ")"
  | .script s => "\x7b" ++ s.raw ++ "\x7d"

/-- The written forms of several values. -/
def textAll : List Value → List String
  | [] => []
  | v :: vs => text v :: textAll vs

end

mutual

/-- The form of a value that spells out every constructor. -/
def detail : Value → String
  | .none => "None"
  | .bool b => "Bool(" ++ truthText b ++ ")"
  | .int n => "Int(" ++ Integer.write n ++ ")"
  | .str t => "Str(" ++ Escaped.write t ++ ")"
  | .ref t => "Ref(" ++ Escaped.write t ++ ")"
  | .list items => "List(" ++ Escaped.writeList (detailAll items) ++ ")"
  | .tuple items => "Tuple(" ++ Escaped.writeList (detailAll items) ++ ")"
  | .script s => "Script(" ++ s.detail ++ ")"

/-- The detailed forms of several values. -/
def detailAll : List Value → List String
  | [] => []
  | v :: vs => detail v :: detailAll vs

end

end Value
end Tabletop
