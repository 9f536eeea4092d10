/-
# Time passes step by step

Time that passes in one go passes as it does in two: the first drain of the
second part finds nothing due, since whatever time has passed ended with a drain
(`due_of_pass`), and a drain that ends well leaves nothing due (`due_of_drain`).
So steps can be added up (`Clock.pass_add`, `Game.passes_add`), for every engine,
every tick rule and all callbacks.
-/

import Tabletop.Proofs.Fuel

namespace Tabletop
namespace Clock

variable {fire : Delay → Run Unit} {tick : Run Unit} {scans m n : Nat} {g h : Engine}

/-- A drain that ends well leaves nothing due. -/
theorem due_of_drain (k : drain fire scans g = some (.ok (), h)) : due h = [] := by
  induction scans generalizing g with
  | zero => cases k
  | succ scans ih =>
    by_cases hd : due g = []
    · rw [drain_idle hd] at k
      cases k
      exact hd
    · rw [drain_scan hd] at k
      obtain ⟨_, _, _, k⟩ := Run.bind_eq_ok_iff.1 k
      exact ih k

/-- A clock step that ends well is a tick rule and then a drain. -/
theorem step_eq_ok_iff : step fire tick scans g = some (.ok (), h) ↔
    ∃ m, tick (advance g.record) = some (.ok (), m) ∧
      drain fire scans (age m) = some (.ok (), h) := by
  rw [step_apply]
  constructor
  · intro k
    obtain ⟨_, m, kt, kd⟩ := Run.bind_eq_ok_iff.1 k
    exact ⟨m, kt, kd⟩
  · rintro ⟨m, kt, kd⟩
    exact Run.bind_eq_ok_iff.2 ⟨(), m, kt, kd⟩

theorem due_of_steps (hg : due g = []) (k : steps fire tick scans n g = some (.ok (), h)) :
    due h = [] := by
  induction n generalizing g with
  | zero =>
    cases k
    exact hg
  | succ n ih =>
    obtain ⟨_, m, ks, k⟩ := Run.bind_eq_ok_iff.1 k
    obtain ⟨_, _, kd⟩ := step_eq_ok_iff.1 ks
    exact ih (due_of_drain kd) k

/-- Whatever time has passed well, nothing is due. -/
theorem due_of_pass {n : Int} (k : pass fire tick scans n g = some (.ok (), h)) : due h = [] := by
  obtain ⟨_, _, kd, k⟩ := Run.bind_eq_ok_iff.1 k
  exact due_of_steps (due_of_drain kd) k

/-- Where nothing is due, time passes without the first drain. -/
theorem pass_of_due (hg : due g = []) :
    pass fire tick (scans + 1) n g = steps fire tick (scans + 1) n g :=
  Run.bind_apply_ok (drain_idle hg)

theorem steps_add (m n : Nat) : steps fire tick scans (m + n) =
    steps fire tick scans m >>= fun _ => steps fire tick scans n := by
  induction m with
  | zero => rw [Nat.zero_add, steps, pure_bind]
  | succ m ih => rw [Nat.succ_add, steps, steps, ih, bind_assoc]

/-- **Time passes in two parts as it does in one.** -/
theorem pass_add (m n : Nat) : pass fire tick scans (m + n) =
    pass fire tick scans m >>= fun _ => pass fire tick scans n := by
  have split : pass fire tick scans (m + n) =
      pass fire tick scans m >>= fun _ => steps fire tick scans n := by
    have sum : ((m : Int) + n).toNat = m + n := by omega
    rw [pass, pass, sum, Int.toNat_natCast, steps_add, bind_assoc]
  rw [split]
  funext g
  show Run.andThen _ _ g = Run.andThen _ _ g
  unfold Run.andThen
  cases k : pass fire tick scans m g with
  | none => rfl
  | some o =>
    obtain ⟨fault | _, h⟩ := o
    · rfl
    · cases scans with
      | zero => cases k
      | succ scans => exact (pass_of_due (due_of_pass k)).symm

end Clock

namespace Game

/-- How time passes, whatever the fuel. -/
def Passes (n : Int) (g : Engine) (o : Except Fault Unit × Engine) : Prop :=
  ∃ fuel, Game.pass fuel n g = some o

variable {n : Int} {g h : Engine} {fuel fuel' : Nat} {o o' : Except Fault Unit × Engine}

/-- There is one way in which time passes. -/
theorem Passes.unique (k : Passes n g o) (k' : Passes n g o') : o = o' := by
  obtain ⟨_, k⟩ := k
  obtain ⟨_, k'⟩ := k'
  have run : (Operation.pass n).run _ g = some o := k
  have run' : (Operation.pass n).run _ g = some o' := k'
  exact Operation.run_unique run run'

/-- Time passes in the same way on more fuel. -/
theorem pass_of_le (le : fuel ≤ fuel') (k : Game.pass fuel n g = some o) :
    Game.pass fuel' n g = some o := by
  have run : (Operation.pass n).run fuel g = some o := k
  exact Operation.run_of_le le run

/-- **Steps of time add up.**  For every engine, `m + n` steps end as `n` steps after
`m` steps do, in the same result and the same engine, or they end in the fault and
the engine in which the `m` steps end; in either case there is no other end. -/
theorem passes_add (m n : Nat) (g : Engine) :
    (∀ o, Passes (m + n) g o ↔
      (∃ fault h, o = (.error fault, h) ∧ Passes m g o) ∨
        ∃ h, Passes m g (.ok (), h) ∧ Passes n h o) ∧
    ∀ o o', Passes (m + n) g o → Passes (m + n) g o' → o = o' := by
  have split (fuel : Nat) : Game.pass fuel (m + n) =
      Game.pass fuel m >>= fun _ => Game.pass fuel n := Clock.pass_add m n
  refine ⟨fun o => ⟨?_, ?_⟩, fun o o' => Passes.unique⟩
  · rintro ⟨fuel, k⟩
    rw [split] at k
    rcases Run.bind_eq_some_iff.1 k with ⟨fault, ho, km⟩ | ⟨_, h, km, kn⟩
    · exact .inl ⟨fault, o.2, Prod.ext ho rfl, fuel, by rw [km, ← ho]⟩
    · exact .inr ⟨h, ⟨fuel, km⟩, fuel, kn⟩
  · rintro (⟨fault, h, rfl, fuel, km⟩ | ⟨h, ⟨fuel, km⟩, fuel', kn⟩)
    · exact ⟨fuel, by rw [split]; exact Run.bind_apply_error km⟩
    · -- Both parts go on as much fuel as either takes.
      have km := pass_of_le (Nat.le_max_left fuel fuel') km
      have kn := pass_of_le (Nat.le_max_right fuel fuel') kn
      exact ⟨max fuel fuel', by rw [split]; exact (Run.bind_apply_ok km).trans kn⟩

end Game

end Tabletop
