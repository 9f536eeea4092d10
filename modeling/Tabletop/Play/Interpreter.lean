/-
# The interpreter: running scripts

An expression is evaluated from left to right: the positional arguments of a
call, then the leftover ones, then the named ones; only then is the function
looked up, so a call of an unknown function still has the effects of its
arguments.

A script can set moves and time going, which run scripts in turn.  The
interpreter therefore takes those powers as a parameter (`Powers`), and
`powers` ties the knot on fuel: one unit is spent on every move or passage of
time inside a script.  The fuel also bounds how often a drain starts over.
-/

import Tabletop.Play.Callback
import Tabletop.Play.Change
import Tabletop.Play.Clock
import Tabletop.Play.Query

namespace Tabletop

/-- What a script can set going. -/
structure Powers where
  test : Choice → Run Check
  perform : Selector → Selector → Selector → Run Bool
  pass : Int → Run Unit

namespace Engine

/-- Rolls the dice. -/
def roll (g : Engine) (low high : Int) : Except Fault (Int × Engine) :=
  match g.state.dice.roll? low high with
  | some (n, dice) => .ok (n, { g with state := { g.state with dice } })
  | none => .error (.arithmetic .emptyRange)

/-- What a value can be scheduled as. -/
def callback (g : Engine) : Value → Except Fault (Callback × Engine)
  | .str source => do
    let (s, g) ← g.compile source
    return (.script s, g)
  | .script s => .ok (.script s, g)
  | .ref name => do
    let _ ← g.entity name
    return (.entity name, g)
  | v => .error (.mistyped .callback v)

end Engine

namespace Interpreter

/-- Calls a function that reaches beyond the entities. -/
def control (p : Powers) (c : Control) (a : Arguments) : Scoped Value :=
  match c with
  | .roll => do
    let (low, high) ← Run.ask fun g => Query.integers g a
    return .int (← Run.change (·.roll low high))
  | .test => do
    let caster ← Run.ask (·.entityName (a.get 0))
    let target ← Run.ask (·.entityName (a.get 1))
    let mover ← Run.ask (·.entityName (a.get 2))
    return .bool (← p.test ⟨caster, target, mover⟩).isPassed
  | .perform => do
    let casters ← Run.ask (·.selector (a.get 0))
    let targets ← Run.ask (·.selector (a.get 1))
    let moves ← Run.ask (·.selector (a.get 2))
    return .bool (← p.perform casters targets moves)
  | .delay => do
    let ticks ← Run.ask (·.integer (a.get 0))
    let v ← Run.ask (·.resolve (a.get 1))
    let callback ← Run.change (·.callback v)
    Run.update (Clock.schedule callback ticks (← get))
    return .bool true
  | .advance => do
    let n ← Run.ask (·.integer (a.get 0))
    p.pass n
    return .bool true

/-- Calls a function. -/
def call (p : Powers) (f : Builtin) (a : Arguments) : Scoped Value :=
  match f with
  | .query q => do
    let scope ← get
    Run.ask fun g => q.answer g scope a
  | .assign => do
    let name ← Run.ask (·.text (a.get 0))
    let v ← Run.ask (·.resolve (a.get 1))
    modify (·.store name v)
    return .bool true
  | .change c => c.run a
  | .control c => control p c a

/-- The function of a name, or a fault. -/
def function (name : String) (g : Engine) : Except Fault Builtin :=
  match g.registry.function? name with
  | some f => .ok f
  | none => .error (.unknownFunction name)

mutual

/-- Evaluates an expression. -/
def eval (p : Powers) : Expr → Scoped Value
  | .literal v => return .ofLiteral v
  | .role r => do return ((← get).bindings.role? r).elim .none .ref
  | .name name => return .ref name
  | .list items => do return .list (← evalAll p items)
  | .tuple items => do return .tuple (← evalAll p items)
  | .call target args variadic named => do
    let positional ← evalAll p args
    let variadic ← evalAll p variadic
    let named ← evalNamed p named
    let f ← Run.ask (function target)
    call p f { positional, variadic, named }

/-- Evaluates expressions in order. -/
def evalAll (p : Powers) : List Expr → Scoped (List Value)
  | [] => return []
  | e :: es => do
    let v ← eval p e
    let vs ← evalAll p es
    return v :: vs

/-- Evaluates named arguments in order. -/
def evalNamed (p : Powers) : List (String × Expr) → Scoped (List (String × Value))
  | [] => return []
  | (name, e) :: es => do
    let v ← eval p e
    let vs ← evalNamed p es
    return (name, v) :: vs

end

/-- Runs a script. -/
def run (p : Powers) : Runner := fun s => eval p s.code

end Interpreter

/-- What a script can set going on an amount of fuel. -/
def powers : Nat → Powers
  | 0 => ⟨fun _ => Run.outOfFuel, fun _ _ _ => Run.outOfFuel, fun _ => Run.outOfFuel⟩
  | fuel + 1 =>
    { test := fun c => Move.test (Interpreter.run (powers fuel)) c
      perform := fun casters targets moves =>
        Move.perform (Interpreter.run (powers fuel)) casters targets moves
      pass := fun n =>
        Clock.pass (Delay.fire (Interpreter.run (powers fuel)))
          (Move.tickRule (Interpreter.run (powers fuel))) fuel n }

/-- What runs scripts on an amount of fuel. -/
def runner (fuel : Nat) : Runner := Interpreter.run (powers fuel)

end Tabletop
