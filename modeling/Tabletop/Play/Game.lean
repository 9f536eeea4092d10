/-
# Playing a game

What can be asked of an engine from outside: loading entities, evaluating
scripts, trying and performing moves, scheduling and letting time pass.  The
operations that run scripts take an amount of fuel; scripts that never end use
up any amount, and every larger amount gives the same outcome as one that was
enough.
-/

import Tabletop.Play.Interpreter

namespace Tabletop
namespace Game

/-- Compiles a text. -/
def compile (raw : String) : Run Script := Run.change (·.compile raw)

/-- Compiles texts in order. -/
def compileAll : List String → Run (List Script)
  | [] => return []
  | raw :: raws => do
    let s ← compile raw
    let ss ← compileAll raws
    return s :: ss

/-- Adds the entity a definition describes. -/
def load (d : Entity.Definition) : Run Unit := do
  let require ← compileAll d.require
  let effect ← compileAll d.effect
  Mutation.insert (.ofDefinition d require effect)

/-- Adds entities in order, up to the first that fails. -/
def loadAll : List Entity.Definition → Run Unit
  | [] => return ()
  | d :: ds => do
    load d
    loadAll ds

/-- The meaning of what a text evaluates to. -/
def evaluate (fuel : Nat) (source : String) (bindings : Bindings) : Run Value := do
  let s ← compile source
  let v ← (runner fuel s).within { bindings }
  Run.ask (·.resolve v)

/-- Tries a choice. -/
def test (fuel : Nat) (c : Choice) : Run Check := Move.test (runner fuel) c

/-- Performs every combination of what three selectors are about. -/
def perform (fuel : Nat) (casters targets moves : Selector) : Run Bool :=
  Move.perform (runner fuel) casters targets moves

/-- Lets time pass. -/
def pass (fuel : Nat) (n : Int) : Run Unit :=
  Clock.pass (Delay.fire (runner fuel)) (Move.tickRule (runner fuel)) fuel n

/-- Fires due delays until none is due. -/
def drain (fuel : Nat) : Run Unit := Clock.drain (Delay.fire (runner fuel)) fuel

/-- Schedules a callback. -/
def schedule (callback : Callback) (ticks : Int) (scope : Scope) : Run Unit :=
  Run.update (Clock.schedule callback ticks scope)

/-- Rolls the dice. -/
def roll (low high : Int) : Run Int := Run.change (·.roll low high)

/-- Rolls back to a frame; whether it exists. -/
def revert (k : Nat) : Run Bool := do
  let (found, g) := (← get).revert k
  set g
  return found

/-- A second engine at a frame, if it exists. -/
def retrieve (k : Nat) : Run (Option Engine) := do
  let (past, g) := (← get).retrieve k
  set g
  return past

end Game
end Tabletop
