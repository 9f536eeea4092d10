/-
# Searching for a move

A search asks which of the choices a game offers would pass, and what each of
them would lead to.  Both work on copies.  The choices that pass are tried one
after another on a single copy; every successor starts from the engine itself.
A fault in one choice is the answer for all.
-/

import Tabletop.Play.Game

namespace Tabletop

/-- How a game ended. -/
inductive Outcome
  | draw
  | winner (name : String)
  | winners (names : List String)
deriving DecidableEq, Repr

/-- Whether a name has won. -/
def Outcome.isWinner : Outcome → String → Bool
  | .draw, _ => false
  | .winner one, name => one == name
  | .winners several, name => several.contains name

namespace Search

/-- Performs a choice; whether it passed. -/
def apply (fuel : Nat) (c : Choice) : Run Bool :=
  Game.perform fuel (.entity c.caster) (.entity c.target) (.entity c.mover)

/-- The choices that pass, tried in order. -/
def passing (fuel : Nat) : List Choice → Run (List Choice)
  | [] => return []
  | c :: cs => do
    let check ← Game.test fuel c
    let rest ← passing fuel cs
    return if check.isPassed then c :: rest else rest

/-- A run on a copy: the engine stays as it is. -/
def onCopy {α : Type} (x : Run α) : Run α := fun g =>
  (x g).map fun (result, _) => (result, g)

/-- The choices that would pass. -/
def passingMoves (fuel : Nat) (choices : List Choice) : Run (List Choice) :=
  onCopy (passing fuel choices)

/-- What performing a choice leads to, if it passes. -/
def successor (fuel : Nat) (c : Choice) : Run (Option (Choice × Engine)) :=
  onCopy do
    let passed ← apply fuel c
    let g ← get
    return if passed then some (c, g) else none

/-- What performing each choice leads to, for those that pass. -/
def successors (fuel : Nat) : List Choice → Run (List (Choice × Engine))
  | [] => return []
  | c :: cs => do
    let next ← successor fuel c
    let rest ← successors fuel cs
    return next.toList ++ rest

end Search
end Tabletop
