/-
# The clock: ticks and delays

A clock step records a frame, moves the clock on, runs the tick rule, makes
every delay one tick older, and drains the queue.  Time passes by draining once
and then taking steps.

Draining takes all due delays out of the queue and fires them in order, and
starts over until none is due, so a delay of no ticks scheduled by a callback
fires in the same drain.  A callback that fails is gone; the due delays after
it go back to the front of the queue, and the drain fails with it.

What fires a delay and what runs the tick rule are parameters; both may change
the engine in any way.  `scans` bounds how often a drain starts over.
-/

import Tabletop.Engine.History
import Tabletop.Run

namespace Tabletop
namespace Clock

/-- Schedules a callback; fewer than no ticks count as none. -/
def schedule (callback : Callback) (ticks : Int) (scope : Scope) (g : Engine) : Engine :=
  { g with state := { g.state with
    delays := g.state.delays.push { ticks := max ticks 0, callback, scope } } }

/-- Takes the due delays out of the queue. -/
def takeDue : Run (List Delay) := do
  let (due, state) := (← get).state.takeDue
  modify fun g => { g with state }
  return due

/-- Puts delays back at the front of the queue. -/
def requeue (delays : List Delay) (g : Engine) : Engine :=
  { g with state := g.state.requeue delays }

/-- Fires delays in order; after a failure the rest goes back to the queue. -/
def fireAll (fire : Delay → Run Unit) : List Delay → Run Unit
  | [] => return ()
  | d :: ds => do
    tryCatch (fire d) fun fault => do
      Run.update (requeue ds)
      throw fault
    fireAll fire ds

/-- Fires due delays until none is due. -/
def drain (fire : Delay → Run Unit) : Nat → Run Unit
  | 0 => Run.outOfFuel
  | scans + 1 => do
    match ← takeDue with
    | [] => return ()
    | due => do
      fireAll fire due
      drain fire scans

/-- Moves the clock on. -/
def advance (g : Engine) : Engine := { g with state := { g.state with time := g.state.time + 1 } }

/-- Makes every delay one tick older. -/
def age (g : Engine) : Engine :=
  { g with state := { g.state with delays := g.state.delays.map (·.age) } }

/-- One clock step. -/
def step (fire : Delay → Run Unit) (tick : Run Unit) (scans : Nat) : Run Unit := do
  Run.update Engine.record
  Run.update advance
  tick
  Run.update age
  drain fire scans

/-- Clock steps, as many as given. -/
def steps (fire : Delay → Run Unit) (tick : Run Unit) (scans : Nat) : Nat → Run Unit
  | 0 => return ()
  | n + 1 => do
    step fire tick scans
    steps fire tick scans n

/-- Lets time pass; fewer than no steps count as none. -/
def pass (fire : Delay → Run Unit) (tick : Run Unit) (scans : Nat) (n : Int) : Run Unit := do
  drain fire scans
  steps fire tick scans n.toNat

end Clock
end Tabletop
