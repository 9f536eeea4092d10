/-
# The state of a game

A state is everything a rollback restores: the clock, the entities, the board,
the delays still waiting, the dice, and the log of performed moves.

A delay is a callback that waits for its ticks to run out, together with the
scope it was scheduled in.  A callback is a script or the name of an entity to
perform as a move.
-/

import Tabletop.Board.Occupancy
import Tabletop.Dice
import Tabletop.Entity
import Tabletop.Series

namespace Tabletop

/-- Who does what to whom. -/
structure Choice where
  caster : String
  target : String
  mover : String
deriving DecidableEq, Repr

/-- The entities the roles of a script stand for, as far as they are given. -/
structure Bindings where
  caster : Option String := none
  target : Option String := none
  mover : Option String := none
deriving DecidableEq, Repr

namespace Bindings

/-- The bindings of a choice. -/
def ofChoice (c : Choice) : Bindings := ⟨some c.caster, some c.target, some c.mover⟩

/-- The entity a role stands for. -/
def role? (b : Bindings) : Role → Option String
  | .caster => b.caster
  | .target => b.target
  | .move => b.mover

end Bindings

/-- What a running script sees besides the game: its bindings, and the values it
has stored. -/
structure Scope where
  bindings : Bindings := {}
  storage : Std.ExtTreeMap String Value := ∅

namespace Scope

instance : BEq Scope where
  beq a b := a.bindings == b.bindings && a.storage.toList == b.storage.toList

/-- The value stored under a name; none if there is none. -/
def stored (s : Scope) (name : String) : Value := s.storage.getD name .none

/-- Stores a value. -/
def store (s : Scope) (name : String) (v : Value) : Scope :=
  { s with storage := s.storage.insert name v }

end Scope

/-- What a delay runs. -/
inductive Callback
  | script (script : Script)
  | entity (name : String)

namespace Callback

/-- Equality, scripts by their texts. -/
def beq : Callback → Callback → Bool
  | .script a, .script b => a == b
  | .entity a, .entity b => a == b
  | _, _ => false

instance : BEq Callback := ⟨beq⟩

end Callback

/-- A callback that waits. -/
structure Delay where
  ticks : Int
  callback : Callback
  scope : Scope := {}
deriving BEq

namespace Delay

/-- A delay whose ticks have run out. -/
def isDue (d : Delay) : Bool := d.ticks ≤ 0

/-- The delay one tick later. -/
def age (d : Delay) : Delay := { d with ticks := Integer.pred d.ticks }

end Delay

/-- A performed move, and when it was done. -/
structure Record where
  time : Int
  choice : Choice
deriving DecidableEq, Repr

/-- The written form of a record. -/
def Record.text (r : Record) : String :=
  "[t=" ++ Integer.write r.time ++ "] " ++ r.choice.caster ++ " -> " ++ r.choice.target ++
    " (" ++ r.choice.mover ++ ")"

/-- Everything a rollback restores. -/
structure State where
  time : Int := 0
  entities : Std.ExtTreeMap String Entity := ∅
  occupancy : Occupancy := {}
  delays : Series Delay := .empty
  dice : Dice
  log : Series Record := .empty

namespace State

/-- Equality, scripts by their texts. -/
instance : BEq State where
  beq a b :=
    a.time == b.time && a.entities.toList == b.entities.toList && a.occupancy == b.occupancy &&
      a.delays == b.delays && a.dice == b.dice && a.log == b.log

/-- An empty game with fresh dice. -/
def start (seed : UInt64) : State := { dice := { seed } }

/-- Takes the due delays out of the queue, in order. -/
def takeDue (s : State) : List Delay × State :=
  ((s.delays.filter (·.isDue)).toList, { s with delays := s.delays.filter (!·.isDue) })

/-- Puts delays back at the front of the queue. -/
def requeue (s : State) (delays : List Delay) : State :=
  { s with delays := .ofList (delays ++ s.delays.toList) }

/-- What goes back to the queue comes first in it. -/
theorem delays_requeue (s : State) (delays : List Delay) :
    (s.requeue delays).delays.toList = delays ++ s.delays.toList := Series.toList_ofList _

/-- The delays taken out are the due ones of the queue. -/
theorem mem_takeDue_fst {s : State} {d : Delay} :
    d ∈ s.takeDue.1 ↔ d ∈ s.delays.toList ∧ d.isDue := by
  simp [takeDue]

/-- No delay left in the queue is due. -/
theorem mem_takeDue_snd {s : State} {d : Delay} :
    d ∈ s.takeDue.2.delays.toList ↔ d ∈ s.delays.toList ∧ d.isDue = false := by
  simp [takeDue]

end State
end Tabletop
