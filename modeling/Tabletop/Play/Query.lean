/-
# Queries: calls that only answer

The arguments of a call have been evaluated but not resolved; each function
resolves what it uses, from left to right.  Both sides of `and` and `or` are
used, and `if` picks one of two values that have both been computed.
-/

import Tabletop.Arguments
import Tabletop.Engine.Resolution

namespace Tabletop
namespace Query

/-- An integer in range, or an overflow. -/
def inRange (n : Int) : Except Fault Int :=
  match Integer.checked n with
  | some n => .ok n
  | none => .error (.arithmetic .overflow)

/-- The quotient, rounded toward zero. -/
def quotient (x y : Int) : Except Fault Int :=
  if y = 0 then .error (.arithmetic .divisionByZero) else inRange (x.tdiv y)

/-- The remainder, with the sign of the dividend; it overflows when the quotient
does. -/
def remainder (x y : Int) : Except Fault Int := do
  let _ ← quotient x y
  return x.tmod y

/-- The first two arguments as integers. -/
def integers (g : Engine) (a : Arguments) : Except Fault (Int × Int) := do
  let x ← g.integer (a.get 0)
  let y ← g.integer (a.get 1)
  return (x, y)

/-- An operation on two integers. -/
def arithmetic (g : Engine) (a : Arguments) (op : Int → Int → Except Fault Int) :
    Except Fault Value := do
  let (x, y) ← integers g a
  return .int (← op x y)

/-- A comparison of two integers. -/
def comparison (g : Engine) (a : Arguments) (op : Int → Int → Bool) : Except Fault Value := do
  let (x, y) ← integers g a
  return .bool (op x y)

/-- Whether the first two arguments mean the same. -/
def sameness (g : Engine) (a : Arguments) : Except Fault Bool := do
  let x ← g.resolve (a.get 0)
  let y ← g.resolve (a.get 1)
  return x.same y

/-- The extremum of all arguments; none if there are none. -/
def extremum (g : Engine) (a : Arguments) (pick : List Int → Option Int) :
    Except Fault Value := do
  let ns ← a.all.mapM g.integer
  return (pick ns).elim .none .int

/-- Whether a list or tuple has an item that means the same as a value. -/
def membership (g : Engine) (a : Arguments) : Except Fault Value := do
  let wanted ← g.resolve (a.get 0)
  match ← g.resolve (a.get 1) with
  | .list items | .tuple items => return .bool (items.any fun item => item.same wanted)
  | v => throw (.mistyped .list v)

/-- How many items a list has, or how many entities a value is about. -/
def number (g : Engine) (a : Arguments) : Except Fault Nat := do
  match ← g.resolve (a.get 0) with
  | .list items => return items.length
  | .none => return 0
  | v => return (← g.names v).length

/-- The location of an entity. -/
def place (g : Engine) (a : Arguments) : Except Fault Value := do
  let e ← g.entity (← g.entityName (a.get 0))
  match e.location with
  | none => return .none
  | some c => return .tuple [.int c.x, .int c.y, .int c.z]

/-- The entities at a location. -/
def standers (g : Engine) (a : Arguments) : Except Fault Value := do
  match ← g.location? (a.get 0) with
  | none => throw (.mistyped .location .none)
  | some c => return .list ((← g.select (.standing c)).map .ref)

/-- The answer of a query. -/
def answer (q : Query) (g : Engine) (scope : Scope) (a : Arguments) : Except Fault Value :=
  match q with
  | .add => arithmetic g a fun x y => inRange (x + y)
  | .sub => arithmetic g a fun x y => inRange (x - y)
  | .mul => arithmetic g a fun x y => inRange (x * y)
  | .div => arithmetic g a quotient
  | .rem => arithmetic g a remainder
  | .eq => do return .bool (← sameness g a)
  | .ne => do return .bool (!(← sameness g a))
  | .lt => comparison g a fun x y => x < y
  | .le => comparison g a fun x y => x ≤ y
  | .gt => comparison g a fun x y => y < x
  | .ge => comparison g a fun x y => y ≤ x
  | .and => do
    let x ← g.truth (a.get 0)
    let y ← g.truth (a.get 1)
    return .bool (x && y)
  | .or => do
    let x ← g.truth (a.get 0)
    let y ← g.truth (a.get 1)
    return .bool (x || y)
  | .not => do return .bool (!(← g.truth (a.get 0)))
  | .max => extremum g a (·.max?)
  | .min => extremum g a (·.min?)
  | .choose => do return if ← g.truth (a.get 0) then a.get 1 else a.get 2
  | .stored => do return scope.stored (← g.text (a.get 0))
  | .stat => do
    let name ← g.entityName (a.get 0)
    let category ← g.text (a.get 1)
    g.stat name category
  | .entity => do return .ref (← g.entityName (a.get 0))
  | .known => do return .bool ((← g.resolve (a.get 0)).name?.any g.contains)
  | .contains => membership g a
  | .count => do return .int (← number g a)
  | .time => .ok (.int g.state.time)
  | .location => place g a
  | .standing => standers g a

end Query
end Tabletop
