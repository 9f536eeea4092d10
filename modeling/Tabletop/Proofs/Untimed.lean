/-
# Scripts that let no time pass

With powers that have no outcome where a script calls for time to pass
(`untimedPowers`), a script runs to an end only if it never does, and then to
the same end as ever (`untimedRunner_agrees`).  What such a script does is to
change entities and to schedule (`Untimed`), so the queue afterwards is the
queue before with the delays it scheduled behind it, in the order in which it
scheduled them (`Untimed.queue_eq`).
-/

import Tabletop.Proofs.Clock
import Tabletop.Proofs.Congruence

namespace Tabletop

/-- Changes and schedulings while no time passes, with the delays that are
scheduled, in order. -/
inductive Untimed : Engine → List Delay → Engine → Prop
  | nil {g} : Untimed g [] g
  | touch {g m ds h} : Touch g m → Untimed m ds h → Untimed g ds h
  | schedule {g ds h} (callback : Callback) (ticks : Int) (scope : Scope) :
      Untimed (Clock.schedule callback ticks scope g) ds h →
      Untimed g (⟨max ticks 0, callback, scope⟩ :: ds) h

namespace Untimed

variable {g m h : Engine} {ds es : List Delay}

theorem append (u : Untimed g ds m) (v : Untimed m es h) : Untimed g (ds ++ es) h := by
  induction u with
  | nil => exact v
  | touch t _ ih => exact .touch t (ih v)
  | schedule callback ticks scope _ ih => exact .schedule callback ticks scope (ih v)

/-- What is scheduled goes to the end of the queue, which stays as it is before that. -/
theorem queue_eq (u : Untimed g ds h) : h.queue = g.queue ++ ds := by
  induction u with
  | nil => exact (List.append_nil _).symm
  | touch t _ ih => rw [ih, Engine.queue, t.effect.keeps.delays]
  | schedule callback ticks scope _ ih =>
    rw [ih, Clock.queue_schedule, List.append_assoc]
    rfl

end Untimed

/-- One run has its outcomes without letting time pass, and the other run has them too. -/
def Agrees {α : Type} (x y : Run α) : Prop :=
  ∀ g r h, x g = some (r, h) → y g = some (r, h) ∧ ∃ ds, Untimed g ds h

/-- Runs that let no time pass are put together like runs. -/
theorem agrees_congruence : Congruence Agrees where
  ask f g r h k := by
    cases k
    exact ⟨rfl, [], .nil⟩
  bind hx hf g r h k := by
    rcases Run.bind_eq_some_iff.1 k with ⟨fault, rfl, kx⟩ | ⟨a, m, kx, kf⟩
    · obtain ⟨e, u⟩ := hx g _ h kx
      exact ⟨Run.bind_apply_error e, u⟩
    · obtain ⟨ex, ds, u⟩ := hx g _ m kx
      obtain ⟨ef, es, v⟩ := hf a m r h kf
      exact ⟨(Run.bind_apply_ok ex).trans ef, ds ++ es, u.append v⟩
  piece hx _ _ _ k := ⟨k, [], .touch (hx k).touch .nil⟩
  log c g r h k := by
    cases k
    exact ⟨rfl, [], .touch (.log c) .nil⟩
  schedule callback ticks scope g r h k := by
    cases k
    exact ⟨rfl, _, .schedule callback ticks scope .nil⟩

/-- What has no outcome agrees with anything. -/
theorem Agrees.outOfFuel {α : Type} (y : Run α) : Agrees Run.outOfFuel y := fun _ _ _ k => nomatch k

/-- What a script can set going on an amount of fuel, letting no time pass. -/
def untimedPowers : Nat → Powers
  | 0 => powers 0
  | fuel + 1 =>
    { test := Move.test (Interpreter.run (untimedPowers fuel))
      perform := Move.perform (Interpreter.run (untimedPowers fuel))
      pass := fun _ => Run.outOfFuel }

/-- What runs scripts as long as they let no time pass. -/
def untimedRunner (fuel : Nat) : Runner := Interpreter.run (untimedPowers fuel)

theorem untimedPowers_agrees (fuel : Nat) : (untimedPowers fuel).Related Agrees (powers fuel) := by
  induction fuel with
  | zero =>
    exact
      { test := fun _ => .outOfFuel _
        perform := fun _ _ _ => .outOfFuel _
        pass := fun _ => .outOfFuel _ }
  | succ fuel ih =>
    have run := Interpreter.run_related agrees_congruence ih
    exact
      { test := Move.test_related agrees_congruence run
        perform := Move.perform_related agrees_congruence run
        pass := fun _ => .outOfFuel _ }

/-- **A script that lets no time pass runs as ever**, and only changes entities and schedules. -/
theorem untimedRunner_agrees (fuel : Nat) (s : Script) :
    Lifted Agrees (untimedRunner fuel s) (runner fuel s) :=
  Interpreter.run_related agrees_congruence (untimedPowers_agrees fuel) s

/-- A callback that lets no time pass fires as ever. -/
theorem untimedFire_agrees (fuel : Nat) (d : Delay) :
    Agrees (d.fire (untimedRunner fuel)) (d.fire (runner fuel)) :=
  Delay.fire_related agrees_congruence (untimedRunner_agrees fuel) d

end Tabletop
