/-
# Moves: requires, then effects

A move is an entity.  Its inherited `require` scripts gate it: they run in
order, and the first whose answer does not count as true refuses it.  If none
does, its inherited `effect` scripts run, in the same scope, so that effects
see what requires have stored.

A choice is tried (`test`) by running its requires only; whatever they change
stays changed.  Selectors are performed (`perform`) by picking casters, targets
and moves once, and then running every combination, each in a scope of its own;
a combination that passes is logged when its effects are done.

What runs a script is a parameter.
-/

import Tabletop.Engine.Resolution
import Tabletop.Run

namespace Tabletop

/-- Whether the requires of a move passed; if not, the one that refused. -/
inductive Check
  | passed
  | refused (require : Script)

/-- Whether a check passed. -/
def Check.isPassed : Check → Bool
  | .passed => true
  | .refused _ => false

namespace Move

/-- The move that is being made. -/
def mover : Scoped String := do
  match (← get).bindings.mover with
  | some name => return name
  | none => throw (.undefined .entity "move")

/-- Runs requires up to the first that refuses. -/
def requires (run : Runner) : List Script → Scoped Check
  | [] => return .passed
  | s :: ss => do
    let v ← run s
    if ← Run.ask (·.truth v) then requires run ss else return .refused s

/-- Runs effects. -/
def effects (run : Runner) : List Script → Scoped Unit
  | [] => return ()
  | s :: ss => do
    let _ ← run s
    effects run ss

/-- Runs the requires of the move. -/
def check (run : Runner) : Scoped Check := do
  let name ← mover
  requires run (← Run.ask (·.inheritedScripts name requireList))

/-- Runs the requires of the move, and if they pass, its effects. -/
def make (run : Runner) : Scoped Check := do
  match ← check run with
  | .refused s => return .refused s
  | .passed =>
    let name ← mover
    effects run (← Run.ask (·.inheritedScripts name effectList))
    return .passed

/-- Tries a choice of existing entities. -/
def test (run : Runner) (c : Choice) : Run Check := do
  let _ ← Run.ask (·.entity c.caster)
  let _ ← Run.ask (·.entity c.target)
  let _ ← Run.ask (·.entity c.mover)
  (check run).within { bindings := .ofChoice c }

/-- Adds a record of a choice to the log. -/
def log (c : Choice) (g : Engine) : Engine :=
  { g with state := { g.state with log := g.state.log.push ⟨g.state.time, c⟩ } }

/-- Makes a move and logs it; whether it passed. -/
def attempt (run : Runner) (c : Choice) : Run Bool := do
  match ← (make run).within { bindings := .ofChoice c } with
  | .refused _ => return false
  | .passed =>
    Run.update (log c)
    return true

/-- Performs every combination of what three selectors are about, the casters
outermost; whether any passed. -/
def perform (run : Runner) (casters targets moves : Selector) : Run Bool := do
  let casters ← Run.ask (·.select casters)
  let targets ← Run.ask (·.select targets)
  let moves ← Run.ask (·.select moves)
  Run.sweep (fun caster =>
    Run.sweep (fun target =>
      Run.sweep (fun mover => attempt run ⟨caster, target, mover⟩) moves) targets) casters

end Move
end Tabletop
