/-
# More fuel changes nothing

Fuel bounds how long a run may go on and has no other part in it.  An outcome
that a run comes to with some amount of fuel, it comes to with every larger one:
running with less approximates running with more (`Approximates`).  This is a
congruence through time (`approximates_timedCongruence`), so it goes up from
drains and powers to every operation (`Operation.run_of_le`), and outcomes with
different amounts of fuel are the same (`Operation.run_unique`).
-/

import Tabletop.Proofs.TimedCongruence

namespace Tabletop

/-- Every outcome of one run is an outcome of the other. -/
def Approximates {α : Type} (x y : Run α) : Prop := ∀ g o, x g = some o → y g = some o

theorem Approximates.refl {α : Type} (x : Run α) : Approximates x x := fun _ _ k => k

theorem Approximates.outOfFuel {α : Type} (y : Run α) : Approximates Run.outOfFuel y :=
  fun _ _ k => nomatch k

theorem approximates_timedCongruence : TimedCongruence Approximates where
  ask f := .refl _
  piece _ := .refl _
  log c := .refl _
  schedule callback ticks scope := .refl _
  outOfFuel := .refl _
  takeDue := .refl _
  requeue ds := .refl _
  age := .refl _
  record := .refl _
  advance := .refl _
  bind hx hf g o k := by
    obtain ⟨r, h⟩ := o
    rcases Run.bind_eq_some_iff.1 k with ⟨fault, rfl, kx⟩ | ⟨a, m, kx, kf⟩
    · exact Run.bind_apply_error (hx g _ kx)
    · rw [Run.bind_apply_ok (hx g _ kx)]
      exact hf a m _ kf
  orElse {_ x y _ _} hx hf g o k := by
    unfold Run.orElse at k ⊢
    cases e : x g with
    | none => rw [e] at k; cases k
    | some r =>
      rw [e] at k
      rw [hx g r e]
      obtain ⟨fault | a, m⟩ := r
      · exact hf fault m o k
      · exact k

/-- A drain that may start over more often comes to the same. -/
theorem Clock.drain_approximates {fire fire' : Delay → Run Unit}
    (hf : ∀ d, Approximates (fire d) (fire' d)) {m n : Nat} (h : m ≤ n) :
    Approximates (drain fire m) (drain fire' n) := by
  have hR := approximates_timedCongruence
  induction m generalizing n with
  | zero => exact .outOfFuel _
  | succ m ih =>
    obtain ⟨n, rfl⟩ := Nat.exists_eq_add_of_lt h
    refine hR.bind (.refl takeDue) fun due => ?_
    cases due with
    | nil => exact .refl _
    | cons d ds => exact hR.bind (fireAll_related hR hf _) fun _ => ih (Nat.le_add_right m n)

theorem powers_approximate {m n : Nat} (h : m ≤ n) : (powers m).Related Approximates (powers n) := by
  have hR := approximates_timedCongruence
  induction m generalizing n with
  | zero =>
    exact
      { test := fun _ => .outOfFuel _
        perform := fun _ _ _ => .outOfFuel _
        pass := fun _ => .outOfFuel _ }
  | succ m ih =>
    obtain ⟨n, rfl⟩ := Nat.exists_eq_add_of_lt h
    have le : m ≤ m + n := Nat.le_add_right m n
    have run := Interpreter.run_related hR.toCongruence (ih le)
    have drain := Clock.drain_approximates (Delay.fire_related hR.toCongruence run) le
    exact
      { test := Move.test_related hR.toCongruence run
        perform := Move.perform_related hR.toCongruence run
        pass := Clock.pass_related hR (Move.tickRule_related hR.toCongruence run) drain }

/-- Less fuel approximates more. -/
theorem runs_approximate {m n : Nat} (h : m ≤ n) : RunsRelated Approximates m n := by
  have hR := approximates_timedCongruence
  have run := Interpreter.run_related hR.toCongruence (powers_approximate h)
  constructor
  · exact run
  · exact Clock.drain_approximates (Delay.fire_related hR.toCongruence run) h

/-- Runs on amounts of fuel that approximate each other upwards have one outcome. -/
theorem Approximates.unique {α : Type} {x : Nat → Run α}
    (hx : ∀ {m n}, m ≤ n → Approximates (x m) (x n)) {m n : Nat} {g : Engine}
    {o o' : Except Fault α × Engine} (k : x m g = some o) (k' : x n g = some o') : o = o' := by
  rcases Nat.le_total m n with h | h
  · have := hx h g o k
    rw [k'] at this
    exact (Option.some.inj this).symm
  · have := hx h g o' k'
    rw [k] at this
    exact Option.some.inj this

variable {op : Operation} {m n : Nat} {g : Engine} {o o' : Except Fault Unit × Engine}

/-- **An operation that comes to an end comes to the same end with more fuel.** -/
theorem Operation.run_of_le (h : m ≤ n) (k : op.run m g = some o) : op.run n g = some o :=
  op.run_related approximates_timedCongruence (runs_approximate h) (fun _ _ => .refl _) g o k

/-- **How an operation ends does not depend on the fuel.** -/
theorem Operation.run_unique (k : op.run m g = some o) (k' : op.run n g = some o') : o = o' :=
  Approximates.unique (x := op.run) (fun h _ _ => run_of_le h) k k'

/-- Trying a choice ends alike with more fuel. -/
theorem Game.test_approximates (c : Choice) (h : m ≤ n) : Approximates (test m c) (test n c) :=
  Move.test_related approximates_timedCongruence.toCongruence (runs_approximate h).runner c

end Tabletop
