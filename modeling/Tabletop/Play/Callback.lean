/-
# Callbacks: what the clock sets going

A delayed script runs in the scope it was scheduled in, and its value is
dropped.  A delayed entity is made as a move, with itself for a caster or
target that was not bound.  The tick rule is an entity made as a move on
itself, if it exists.  None of them is logged.

What runs a script is a parameter.
-/

import Tabletop.Play.Move

namespace Tabletop

/-- The bindings of an entity that acts as a callback. -/
def Bindings.acting (b : Bindings) (name : String) : Bindings :=
  ⟨b.caster <|> some name, b.target <|> some name, some name⟩

/-- Runs the callback of a delay. -/
def Delay.fire (run : Runner) (d : Delay) : Run Unit :=
  match d.callback with
  | .script s => do
    let _ ← (run s).within d.scope
  | .entity name => do
    let _ ← Run.ask (·.entity name)
    let _ ← (Move.make run).within { d.scope with bindings := d.scope.bindings.acting name }

/-- Makes the tick rule, if there is such an entity. -/
def Move.tickRule (run : Runner) : Run Unit := do
  let g ← get
  let rule := g.config.tickRule
  if g.contains rule then
    let _ ← (make run).within { bindings := .ofChoice ⟨rule, rule, rule⟩ }

end Tabletop
