/-
# Trying a choice predicts performing it

To try a choice is to look up its entities and to run the requires of its move
(`Move.test_eq`).  To perform it does the same (`Move.perform_eq`) and then goes on
from there: in the scope that the requires leave, with all they have stored, it runs
the effects, and adds the record of the choice behind whatever they logged
(`Move.attempt_eq_ok`).

The move whose effects are run is looked up in that scope once more.  It is the same
move, as no script changes its bindings (`Move.check_bindings`).

So if a trial fails or is refused, performing the choice ends the same way in the same
engine, and if it passes, performing the choice is not refused (`Game.test_predicts`).
The trial need not be without effect for that, and what it spends of its fuel says
nothing about the effects: they may need more.
-/

import Tabletop.Proofs.Log
import Tabletop.Proofs.Scopes
import Tabletop.Proofs.Search

namespace Tabletop

/-- Performs one choice, given by its names. -/
def Game.performChoice (fuel : Nat) (c : Choice) : Run Bool :=
  perform fuel (.entity c.caster) (.entity c.target) (.entity c.mover)

namespace Move

variable {run : Runner} {c : Choice} {scope left : Scope} {g h m : Engine} {fault : Fault}

/-- Looks up the entities of a choice. -/
def meet (c : Choice) : Run Unit := do
  let _ ← Run.ask (·.entity c.caster)
  let _ ← Run.ask (·.entity c.target)
  let _ ← Run.ask (·.entity c.mover)

theorem test_eq (run : Runner) (c : Choice) :
    test run c = meet c >>= fun _ => (check run).within { bindings := .ofChoice c } := by
  unfold test meet
  simp only [bind_assoc, pure_bind]

theorem perform_eq (run : Runner) (c : Choice) :
    perform run (.entity c.caster) (.entity c.target) (.entity c.mover) =
      meet c >>= fun _ => attempt run c := by
  rw [perform_choice]
  unfold meet
  simp only [bind_assoc, pure_bind]

/-- Looking up leaves the engine. -/
theorem meet_eq_ok {u : Unit} (k : meet c g = some (.ok u, h)) : g = h := by
  obtain ⟨_, _, k⟩ := Run.ask_bind_eq_ok_iff.1 k
  obtain ⟨_, _, k⟩ := Run.ask_bind_eq_ok_iff.1 k
  obtain ⟨_, _, k⟩ := Run.ask_bind_eq_ok_iff.1 k
  cases k
  rfl

/-! ### After the check -/

/-- A check that fails is how the attempt ends. -/
theorem attempt_of_check_error
    (k : (check run).within { bindings := .ofChoice c } g = some (.error fault, m)) :
    attempt run c g = some (.error fault, m) := by
  rcases Run.bind_eq_error_iff.1 k with k | ⟨_, _, _, k⟩
  · exact Run.bind_apply_error (Run.bind_apply_error (Run.bind_apply_error k))
  · cases k

/-- A check that refuses is how the attempt ends. -/
theorem attempt_of_check_refused {s : Script}
    (k : (check run).within { bindings := .ofChoice c } g = some (.ok (.refused s), m)) :
    attempt run c g = some (.ok false, m) := by
  obtain ⟨left, k⟩ := Scoped.within_eq_ok_iff.1 k
  have made : make run { bindings := .ofChoice c } g = some (.ok (.refused s, left), m) :=
    Run.bind_apply_ok k
  exact Run.bind_apply_ok (Scoped.within_eq_ok_iff.2 ⟨left, made⟩)

/-- **A move that is made has passed its check, and its effects have run from where the
requires left off.** -/
theorem make_eq_passed {name : String} (hr : ∀ s, KeepsBindings (run s))
    (hn : scope.bindings.mover = some name)
    (k : make run scope g = some (.ok (.passed, left), h)) :
    ∃ between m ss, check run scope g = some (.ok (.passed, between), m) ∧
      between.bindings = scope.bindings ∧ m.inheritedScripts name effectList = .ok ss ∧
        effects run ss between m = some (.ok ((), left), h) := by
  obtain ⟨⟨verdict, between⟩, m, kc, k⟩ := Run.bind_eq_ok_iff.1 k
  have kept : between.bindings = scope.bindings := check_bindings hr _ _ _ _ _ kc
  cases verdict with
  | refused s => cases k
  | passed =>
    obtain ⟨⟨mover, scope'⟩, m', km, k⟩ := Run.bind_eq_ok_iff.1 k
    rw [mover_apply (kept ▸ hn)] at km
    cases km
    obtain ⟨ss, hs, k⟩ := Scoped.ask_bind_eq_ok_iff.1 k
    obtain ⟨⟨_, last⟩, n, ke, k⟩ := Run.bind_eq_ok_iff.1 k
    cases k
    exact ⟨between, m, ss, kc, kept, hs, ke⟩

/-- An attempt that comes to an answer was refused by its check, or has passed it, run
the effects and logged the choice. -/
theorem attempt_eq_ok {answer : Bool} (hr : ∀ s, KeepsBindings (run s))
    (k : attempt run c g = some (.ok answer, h)) :
    (∃ s, (check run).within { bindings := .ofChoice c } g = some (.ok (.refused s), h) ∧
      answer = false) ∨
    ∃ left m ss last n, check run { bindings := .ofChoice c } g = some (.ok (.passed, left), m) ∧
      left.bindings = .ofChoice c ∧ m.inheritedScripts c.mover effectList = .ok ss ∧
        effects run ss left m = some (.ok ((), last), n) ∧ h = log c n ∧ answer = true := by
  obtain ⟨verdict, n, kw, k⟩ := Run.bind_eq_ok_iff.1 k
  obtain ⟨last, km⟩ := Scoped.within_eq_ok_iff.1 kw
  cases verdict with
  | refused s =>
    cases k
    obtain ⟨⟨first, left⟩, m, kc, km⟩ := Run.bind_eq_ok_iff.1 km
    cases first with
    | refused s' =>
      cases km
      exact .inl ⟨s, Scoped.within_eq_ok_iff.2 ⟨_, kc⟩, rfl⟩
    | passed =>
      -- After a check that passes, what is left to do does not refuse.
      obtain ⟨_, _, _, km⟩ := Run.bind_eq_ok_iff.1 km
      obtain ⟨_, _, _, km⟩ := Run.bind_eq_ok_iff.1 km
      obtain ⟨_, _, _, km⟩ := Run.bind_eq_ok_iff.1 km
      cases km
  | passed =>
    cases k
    obtain ⟨left, m, ss, kc, kept, hs, ke⟩ := make_eq_passed hr rfl km
    exact .inr ⟨left, m, ss, last, n, kc, kept, hs, ke, rfl, rfl⟩

end Move

/-- **Trying a choice predicts performing it.**  If the trial fails, so does performing
the choice, with the same fault and in the same engine.  If a require refuses, performing
the choice answers no in the same engine, so that nothing is logged but by the requires.
If the trial passes, performing the choice does not answer no; and where it answers yes,
the effects have run from the engine that the trial left, in the scope of its requires,
and the choice has been logged once with the clock as it stands then, behind everything
that the effects logged. -/
theorem Game.test_predicts {fuel : Nat} {c : Choice} {g m : Engine} {r : Except Fault Check}
    (k : Game.test fuel c g = some (r, m)) :
    match r with
    | .error fault => ∀ fuel' ≥ fuel, Game.performChoice fuel' c g = some (.error fault, m)
    | .ok (.refused _) => ∀ fuel' ≥ fuel, Game.performChoice fuel' c g = some (.ok false, m)
    | .ok .passed => ∀ fuel' answer h, Game.performChoice fuel' c g = some (.ok answer, h) →
        answer = true ∧ ∃ left effects last n logged,
          Move.check (runner fuel') { bindings := .ofChoice c } g =
            some (.ok (.passed, left), m) ∧
          left.bindings = .ofChoice c ∧
          m.inheritedScripts c.mover effectList = .ok effects ∧
          Move.effects (runner fuel') effects left m = some (.ok ((), last), n) ∧
          n.state.log.toList = m.state.log.toList ++ logged ∧
          h = Move.log c n ∧
          h.state.log.toList = m.state.log.toList ++ logged ++ [⟨h.state.time, c⟩] := by
  have more {fuel'} (hf : fuel' ≥ fuel) : Game.test fuel' c g = some (r, m) :=
    Game.test_approximates c hf g (r, m) k
  cases r with
  | error fault =>
    intro fuel' hf
    have kt := more hf
    rw [Game.test, Move.test_eq] at kt
    rw [performChoice, perform, Move.perform_eq]
    rcases Run.bind_eq_error_iff.1 kt with km | ⟨_, g', km, kc⟩
    · exact Run.bind_apply_error km
    · exact (Run.bind_apply_ok km).trans (Move.attempt_of_check_error kc)
  | ok verdict =>
    cases verdict with
    | refused s =>
      intro fuel' hf
      have kt := more hf
      rw [Game.test, Move.test_eq] at kt
      rw [performChoice, perform, Move.perform_eq]
      obtain ⟨_, g', km, kc⟩ := Run.bind_eq_ok_iff.1 kt
      exact (Run.bind_apply_ok km).trans (Move.attempt_of_check_refused kc)
    | passed =>
      intro fuel' answer h kp
      rw [performChoice, perform, Move.perform_eq] at kp
      obtain ⟨_, g', km, ka⟩ := Run.bind_eq_ok_iff.1 kp
      cases Move.meet_eq_ok km
      have tried {verdict : Check} {m' : Engine}
          (kc : (Move.check (runner fuel')).within { bindings := .ofChoice c } g =
            some (.ok verdict, m')) : verdict = .passed ∧ m' = m := by
        have kt : Game.test fuel' c g = some (.ok verdict, m') := by
          rw [Game.test, Move.test_eq]
          exact (Run.bind_apply_ok km).trans kc
        cases Search.test_unique k kt
        exact ⟨rfl, rfl⟩
      obtain ⟨s, kc, _⟩ | ⟨left, m', effects, last, n, kc, kept, hs, ke, rfl, rfl⟩ :=
        Move.attempt_eq_ok (fun s => KeepsBindings.eval s.code) ka
      · cases (tried kc).1
      · obtain ⟨_, rfl⟩ := tried (Scoped.within_eq_ok_iff.2 ⟨left, kc⟩)
        have timeline : Tracked (Move.effects (runner fuel') effects left) :=
          Move.effects_related tracked_congruence (runner_tracked fuel') effects left
        obtain ⟨logged, hl, _⟩ := (timeline.continues ke).log
        refine ⟨rfl, left, effects, last, n, logged, kc, kept, hs, ke, hl, rfl, ?_⟩
        rw [← hl]
        exact Series.toList_push _ _

/-- A move whose require stores a mark, and whose effects put the mark among the groups
of the target, have a plain move made, and let a step pass. -/
def branding : Entity :=
  ((Entity.named "brand").append requireList
    [.script ⟨"let mark red",
        .call "assign" [.literal (.str "mark"), .name "red"] [] []⟩]).append effectList
    [.script ⟨"target group append (var mark)", .call "list_add"
        [.role .target, .literal (.str "group"), .call "stored" [.literal (.str "mark")] [] []] [] []⟩,
      .script ⟨"perform caster target nod", .call "control_move"
        [.role .caster, .role .target, .name "nod"] [] []⟩,
      .script ⟨"advance 1", .call "control_time" [.literal (.int 1)] [] []⟩]

/-- To brand a hero passes when tried, and to do it puts the mark that the require stored
on the hero and is logged after the move it had made, with the clock after the step. -/
theorem Game.test_predicts_branding : ∃ g m h : Engine, Reachable g ∧
    Game.test 2 ⟨"hero", "hero", "brand"⟩ g = some (.ok .passed, m) ∧
    Game.performChoice 2 ⟨"hero", "hero", "brand"⟩ g = some (.ok true, h) ∧
    m.state.log.toList = [] ∧
    h.state.log.toList = [⟨0, ⟨"hero", "hero", "nod"⟩⟩, ⟨1, ⟨"hero", "hero", "brand"⟩⟩] ∧
    (h.entity? "hero").map (·.group.map (·.name?)) = some [some "hero", some "red"] ∧
    ∃ left last n, left.stored "mark" = .ref "red" ∧
      Move.check (runner 2) { bindings := .ofChoice ⟨"hero", "hero", "brand"⟩ } g =
        some (.ok (.passed, left), m) ∧
      (∃ effects, Move.effects (runner 2) effects left m = some (.ok ((), last), n)) ∧
      h = Move.log ⟨"hero", "hero", "brand"⟩ n := by
  obtain ⟨start, hs⟩ : ∃ start, Engine.start {} { knowsFunctions := true } = .ok start := ⟨_, rfl⟩
  obtain ⟨g, hg⟩ : ∃ g, [.named "hero", .named "nod", branding].forM Mutation.insert start =
      some (.ok (), g) := by
    cases hs
    exact ⟨_, rfl⟩
  have reachable : Reachable g := (Reachable.start hs).insertAll hg
  obtain ⟨m, kt⟩ : ∃ m, Game.test 2 ⟨"hero", "hero", "brand"⟩ g = some (.ok .passed, m) := by
    cases hs
    cases hg
    exact ⟨_, rfl⟩
  obtain ⟨h, kp⟩ : ∃ h, Game.performChoice 2 ⟨"hero", "hero", "brand"⟩ g = some (.ok true, h) := by
    cases hs
    cases hg
    exact ⟨_, rfl⟩
  obtain ⟨_, left, effects, last, n, _, kc, _, _, ke, _, logged, _⟩ :=
    Game.test_predicts kt 2 true h kp
  refine ⟨g, m, h, reachable, kt, kp, ?_, ?_, ?_, left, last, n, ?_, kc, ⟨effects, ke⟩, logged⟩
  all_goals
    cases hs
    cases hg
  · cases kt
    rfl
  · cases kp
    rfl
  · cases kp
    rfl
  · cases kc
    rfl

end Tabletop
