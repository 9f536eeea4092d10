/-
# Keywords: which tokens a word takes

A keyword is a word with a calling convention.  Its slots say which tokens
around it become arguments of the function it is for: first those of `args` in
order, then those of `named`; if it is `variadic`, whatever is left follows.  A
slot may have a default for when no token stands there, and a token at a
`literal` slot is taken as text instead of being given a meaning.

A definition is a keyword with its slots in written form.
-/

import Std.Data.ExtTreeMap
import Tabletop.Script.Expr
import Tabletop.Script.SyntaxError

namespace Tabletop

/-- A word with a calling convention. -/
structure Keyword where
  name : String
  target : String
  args : List Slot := []
  defaults : Std.ExtTreeMap Slot Literal := ∅
  named : List (String × Slot) := []
  variadic : Bool := false
  literal : List Slot := []

/-- The slot with a written form. -/
def Slot.read (text : String) : Except SyntaxError Slot :=
  match Slot.ofText? text with
  | some slot => .ok slot
  | none => .error (.invalidSlot text)

namespace Keyword

/-- The keyword with one more default, in place of any at the slot. -/
def withDefault (k : Keyword) (slot : Slot) (value : Literal) : Keyword :=
  { k with defaults := k.defaults.insert slot value }

/-- A keyword whose slots are written out. -/
structure Definition where
  name : String
  target : String
  args : List String := []
  defaults : List (String × Literal) := []
  named : List (String × String) := []
  variadic : Bool := false
  literal : List String := []

/-- The keyword a definition describes.  The first slot that cannot be read is
reported, in the order of the fields; a later default replaces an earlier one. -/
def ofDefinition (d : Definition) : Except SyntaxError Keyword := do
  let args ← d.args.mapM Slot.read
  let defaults ← d.defaults.mapM fun (slot, value) => return (← Slot.read slot, value)
  let named ← d.named.mapM fun (name, slot) => return (name, ← Slot.read slot)
  let literal ← d.literal.mapM Slot.read
  let keyword : Keyword :=
    { name := d.name, target := d.target, args, named, variadic := d.variadic, literal }
  return defaults.foldl (fun k (slot, value) => k.withDefault slot value) keyword

end Keyword
end Tabletop
