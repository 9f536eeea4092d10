/-
# What a search finds

A search tries choices on copies.  Successors start from the live engine each;
the choices that pass are tried one after another on a single copy, which keeps
what their requires change.

Performing a choice passes exactly if trying it does (`Move.test_of_perform`), so
successors are those of the choices that pass on the live engine
(`successors_eq_filter`).  The choices that pass are the same ones exactly if no
choice fares differently on the copy that the choices before it leave
(`Independent`, `passingMoves_eq_iff`).  With requires that change something it
may: a key that is used up opens one door on a shared copy, and each door on a
copy of its own (`passingMoves_ne_successors`).
-/

import Tabletop.Play.Search
import Tabletop.Proofs.Fuel

namespace Tabletop

namespace Run

variable {α : Type}

/-- A sweep over one item. -/
theorem sweep_singleton (x : α → Run Bool) (a : α) : sweep x [a] = x a := by
  unfold sweep
  rw [List.foldlM_cons]
  simp

/-- A name selects itself, if it is an entity's. -/
theorem ask_select_entity (name : String) (f : List String → Run α) :
    (ask (·.select (.entity name)) >>= f) = (ask (·.entity name) >>= fun _ => f [name]) := by
  funext g
  have select : g.select (.entity name) = (do let _ ← g.entity name; return [name]) := rfl
  cases he : g.entity name with
  | error fault =>
    have hs : ask (·.select (.entity name)) g = some (.error fault, g) := by
      rw [ask, select, he]
      rfl
    have hn : ask (·.entity name) g = some (.error fault, g) := by rw [ask, he]
    rw [bind_apply_error hs, bind_apply_error hn]
  | ok e =>
    have hs : ask (·.select (.entity name)) g = some (.ok [name], g) := by
      rw [ask, select, he]
      rfl
    have hn : ask (·.entity name) g = some (.ok e, g) := by rw [ask, he]
    rw [bind_apply_ok hs, bind_apply_ok hn]

end Run

namespace Move

variable {run : Runner} {c : Choice} {g h : Engine} {passed : Bool}

/-- Making a move checks it first, and says what the check said. -/
theorem check_of_make {scope left : Scope} {verdict : Check}
    (k : make run scope g = some (.ok (verdict, left), h)) :
    ∃ left m, check run scope g = some (.ok (verdict, left), m) := by
  obtain ⟨⟨first, left'⟩, m, kc, k⟩ := Run.bind_eq_ok_iff.1 k
  refine ⟨left', m, ?_⟩
  cases first with
  | refused s =>
    cases k
    exact kc
  | passed =>
    obtain ⟨_, _, _, k⟩ := Run.bind_eq_ok_iff.1 k
    obtain ⟨_, _, _, k⟩ := Run.bind_eq_ok_iff.1 k
    obtain ⟨_, _, _, k⟩ := Run.bind_eq_ok_iff.1 k
    cases k
    exact kc

/-- An attempt passes exactly if its check does. -/
theorem check_of_attempt (k : attempt run c g = some (.ok passed, h)) :
    ∃ verdict m, (check run).within { bindings := .ofChoice c } g = some (.ok verdict, m) ∧
      verdict.isPassed = passed := by
  obtain ⟨verdict, m, kw, k⟩ := Run.bind_eq_ok_iff.1 k
  obtain ⟨⟨made, left⟩, m', km, kw⟩ := Run.bind_eq_ok_iff.1 kw
  cases kw
  obtain ⟨left', n, kc⟩ := check_of_make km
  refine ⟨made, n, Run.bind_eq_ok_iff.2 ⟨_, n, kc, rfl⟩, ?_⟩
  cases made with
  | refused s => cases k; rfl
  | passed =>
    obtain ⟨_, _, _, k⟩ := Run.bind_eq_ok_iff.1 k
    cases k
    rfl

/-- To perform a choice is to attempt it, once its entities exist. -/
theorem perform_choice (run : Runner) (c : Choice) :
    perform run (.entity c.caster) (.entity c.target) (.entity c.mover) = (do
      let _ ← Run.ask (·.entity c.caster)
      let _ ← Run.ask (·.entity c.target)
      let _ ← Run.ask (·.entity c.mover)
      attempt run c) := by
  unfold perform
  simp only [Run.ask_select_entity, Run.sweep_singleton]

/-- **Performing a choice passes exactly if trying it does.** -/
theorem test_of_perform
    (k : perform run (.entity c.caster) (.entity c.target) (.entity c.mover) g =
      some (.ok passed, h)) :
    ∃ verdict m, test run c g = some (.ok verdict, m) ∧ verdict.isPassed = passed := by
  rw [perform_choice] at k
  obtain ⟨caster, g₁, hc, k⟩ := Run.bind_eq_ok_iff.1 k
  obtain ⟨target, g₂, ht, k⟩ := Run.bind_eq_ok_iff.1 k
  obtain ⟨mover, g₃, hm, k⟩ := Run.bind_eq_ok_iff.1 k
  obtain ⟨verdict, m, kc, hp⟩ := check_of_attempt k
  refine ⟨verdict, m, ?_, hp⟩
  refine Run.bind_eq_ok_iff.2 ⟨caster, g₁, hc, ?_⟩
  refine Run.bind_eq_ok_iff.2 ⟨target, g₂, ht, ?_⟩
  exact Run.bind_eq_ok_iff.2 ⟨mover, g₃, hm, kc⟩

end Move

namespace Search

variable {fuel : Nat} {c : Choice} {cs ps : List Choice} {live copy g h m : Engine} {verdict : Check}

/-- A choice passes in an engine. -/
def Passes (c : Choice) (g : Engine) : Prop :=
  ∃ fuel m, Game.test fuel c g = some (.ok .passed, m)

/-- What trying a choice comes to is one thing, whatever the fuel. -/
theorem test_unique {fuel' : Nat} {o o' : Except Fault Check × Engine}
    (k : Game.test fuel c g = some o) (k' : Game.test fuel' c g = some o') : o = o' :=
  Approximates.unique (Game.test_approximates c) k k'

theorem passes_iff (k : Game.test fuel c g = some (.ok verdict, m)) :
    Passes c g ↔ verdict.isPassed = true := by
  constructor
  · rintro ⟨fuel', m', k'⟩
    cases test_unique k k'
    rfl
  · intro passed
    cases verdict with
    | passed => exact ⟨fuel, m, k⟩
    | refused s => cases passed

/-- On a copy a run comes to what it comes to, and the engine stays as it is. -/
theorem onCopy_eq_some_iff {α : Type} {x : Run α} {r : Except Fault α} :
    onCopy x g = some (r, h) ↔ h = g ∧ ∃ m, x g = some (r, m) := by
  unfold onCopy
  constructor
  · intro k
    obtain ⟨⟨r', m⟩, hx, k⟩ := Option.map_eq_some_iff.1 k
    cases k
    exact ⟨rfl, m, hx⟩
  · rintro ⟨rfl, m, hx⟩
    rw [hx]
    rfl

section

open scoped Classical

/-! ### Successors -/

/-- A choice has a successor exactly if it passes on the live engine. -/
theorem successor_eq_ok {next : Option (Choice × Engine)}
    (k : successor fuel c g = some (.ok next, h)) :
    h = g ∧ next.toList.map (·.1) = if Passes c g then [c] else [] := by
  obtain ⟨rfl, m, k⟩ := onCopy_eq_some_iff.1 k
  obtain ⟨passed, n, kp, k⟩ := Run.bind_eq_ok_iff.1 k
  obtain ⟨_, _, kg, k⟩ := Run.bind_eq_ok_iff.1 k
  obtain ⟨verdict, _, kt, rfl⟩ := Move.test_of_perform kp
  refine ⟨rfl, ?_⟩
  rw [if_congr (passes_iff kt) rfl rfl]
  cases kg
  cases hv : verdict.isPassed <;> rw [hv] at k <;> cases k <;> rfl

/-- **Successors are those of the choices that pass on the live engine.** -/
theorem successors_eq_filter {next : List (Choice × Engine)}
    (k : successors fuel cs g = some (.ok next, h)) :
    next.map (·.1) = cs.filter (Passes · g) := by
  induction cs generalizing next h with
  | nil =>
    cases k
    rfl
  | cons c cs ih =>
    obtain ⟨first, m, kf, ks⟩ := Run.bind_eq_ok_iff.1 k
    obtain ⟨rfl, hf⟩ := successor_eq_ok kf
    obtain ⟨rest, n, kr, ke⟩ := Run.bind_eq_ok_iff.1 ks
    have hr := ih kr
    cases ke
    rw [List.map_append, hf, hr, List.filter_cons]
    by_cases hp : Passes c m <;> simp [hp]

/-! ### Choices on one copy -/

theorem passing_cons_eq_ok_iff : passing fuel (c :: cs) g = some (.ok ps, h) ↔
    ∃ verdict m rest, Game.test fuel c g = some (.ok verdict, m) ∧
      passing fuel cs m = some (.ok rest, h) ∧ ps = if Passes c g then c :: rest else rest := by
  constructor
  · intro k
    obtain ⟨verdict, m, kt, k⟩ := Run.bind_eq_ok_iff.1 k
    obtain ⟨rest, _, kr, k⟩ := Run.bind_eq_ok_iff.1 k
    cases k
    exact ⟨verdict, m, rest, kt, kr, (if_congr (passes_iff kt) rfl rfl).symm⟩
  · rintro ⟨verdict, m, rest, kt, kr, rfl⟩
    rw [if_congr (passes_iff kt) rfl rfl]
    exact Run.bind_eq_ok_iff.2 ⟨verdict, m, kt, Run.bind_eq_ok_iff.2 ⟨rest, h, kr, rfl⟩⟩

theorem passing_approximates {m n : Nat} (h : m ≤ n) :
    ∀ cs, Approximates (passing m cs) (passing n cs)
  | [] => .refl _
  | c :: cs => approximates_timedCongruence.bind (Game.test_approximates c h) fun _ =>
      approximates_timedCongruence.bind (passing_approximates h cs) fun _ => .refl _

theorem sublist_of_passing (k : passing fuel cs g = some (.ok ps, h)) : ps.Sublist cs := by
  induction cs generalizing ps g with
  | nil =>
    cases k
    exact List.nil_sublist []
  | cons c cs ih =>
    obtain ⟨_, m, rest, _, kr, rfl⟩ := passing_cons_eq_ok_iff.1 k
    have rest := ih kr
    split
    · exact rest.cons_cons c
    · exact rest.cons c

/-- Every choice fares on the copy that the choices before it leave as it does on the
live engine. -/
def Independent (live copy : Engine) (cs : List Choice) : Prop :=
  ∀ before c after fuel tried m, cs = before ++ c :: after →
    passing fuel before copy = some (.ok tried, m) → (Passes c m ↔ Passes c live)

/-- The first choice is tried on the copy, and the others on what it leaves. -/
theorem independent_cons_iff (k : Game.test fuel c copy = some (.ok verdict, m)) :
    Independent live copy (c :: cs) ↔
      (Passes c copy ↔ Passes c live) ∧ Independent live m cs := by
  constructor
  · intro h
    constructor
    · exact h [] c cs fuel [] copy rfl rfl
    · rintro before d after fuel' tried n rfl kb
      -- Both are tried with as much fuel as either takes.
      have k := Game.test_approximates c (Nat.le_max_left fuel fuel') _ _ k
      have kb := passing_approximates (Nat.le_max_right fuel fuel') _ _ _ kb
      have both := passing_cons_eq_ok_iff.2 ⟨verdict, m, tried, k, kb, rfl⟩
      exact h (c :: before) d after _ _ n rfl both
  · rintro ⟨first, others⟩ before d after fuel' tried n hcs kb
    cases before with
    | nil =>
      cases hcs
      cases kb
      exact first
    | cons c' before =>
      cases hcs
      obtain ⟨_, m', rest, k', kb, _⟩ := passing_cons_eq_ok_iff.1 kb
      cases test_unique k k'
      exact others before d after fuel' rest n rfl kb

/-- If trying a choice leaves the engine as it is, choices are independent. -/
theorem independent_of_still
    (still : ∀ c ∈ cs, ∀ fuel verdict m, Game.test fuel c g = some (.ok verdict, m) → m = g) :
    Independent g g cs := by
  rintro before c after fuel tried m rfl k
  have left : m = g := by
    induction before generalizing tried with
    | nil =>
      cases k
      rfl
    | cons d before ih =>
      obtain ⟨verdict, n, rest, kt, kr, _⟩ := passing_cons_eq_ok_iff.1 k
      obtain rfl := still d List.mem_cons_self fuel verdict n kt
      exact ih rest (fun c hc => still c (List.mem_cons_of_mem d hc)) kr
  rw [left]

/-- **The choices that pass on one copy are those that pass on the live engine exactly
if the choices are independent.** -/
theorem passing_eq_filter_iff (k : passing fuel cs copy = some (.ok ps, h)) :
    ps = cs.filter (Passes · live) ↔ Independent live copy cs := by
  induction cs generalizing ps copy with
  | nil =>
    cases k
    refine ⟨fun _ before c after _ _ _ hcs _ => ?_, fun _ => rfl⟩
    exact absurd hcs (by simp)
  | cons c cs ih =>
    obtain ⟨verdict, m, rest, kt, kr, rfl⟩ := passing_cons_eq_ok_iff.1 k
    rw [independent_cons_iff kt, ← ih kr, List.filter_cons]
    by_cases hc : Passes c copy
    · by_cases hl : Passes c live
      · simp [hc, hl]
      · refine iff_of_false (fun same => ?_) (by simp [hc, hl])
        rw [if_pos hc, if_neg (by simpa using hl)] at same
        have mem : c ∈ cs.filter (Passes · live) := same ▸ List.mem_cons_self
        exact hl (by simpa using (List.mem_filter.1 mem).2)
    · by_cases hl : Passes c live
      · refine iff_of_false (fun same => ?_) (by simp [hc, hl])
        rw [if_neg hc, if_pos (by simpa using hl)] at same
        -- All of the rest pass on the live engine, where one more does.
        have fewer := (sublist_of_passing kr).filter (Passes · live)
        rw [same, List.filter_cons, if_pos (by simpa using hl), List.filter_filter] at fewer
        exact absurd fewer.length_le (by simp)
      · simp [hc, hl]

/-- **A search finds the same choices both ways exactly if the choices are
independent**, whatever choices a game offers.  Successors are those of the choices
that pass on the live engine; so are the choices that pass, exactly if none fares
differently for the choices tried before it, as when trying a choice leaves the
engine as it is. -/
theorem passingMoves_eq_iff {fuel' : Nat} {next : List (Choice × Engine)} {g₁ g₂ : Engine}
    (kp : passingMoves fuel cs g = some (.ok ps, g₁))
    (ks : successors fuel' cs g = some (.ok next, g₂)) :
    next.map (·.1) = cs.filter (Passes · g) ∧
      (ps = next.map (·.1) ↔ Independent g g cs) ∧
      ((∀ c ∈ cs, ∀ fuel verdict m, Game.test fuel c g = some (.ok verdict, m) → m = g) →
        ps = next.map (·.1)) := by
  obtain ⟨_, copy, kp⟩ := onCopy_eq_some_iff.1 kp
  have hs := successors_eq_filter ks
  have same : ps = next.map (·.1) ↔ Independent g g cs := by
    rw [hs]
    exact passing_eq_filter_iff kp
  exact ⟨hs, same, fun still => same.2 (independent_of_still still)⟩

end

/-- A hero, two doors, and a move that uses up the key to open one. -/
def folk : List Entity :=
  [.named "hero", .named "east", .named "west", .named "key",
    (Entity.named "open").append requireList
      [.script ⟨"exists key", .call "exists" [.name "key"] [] []⟩,
        .script ⟨"delete key", .call "delete" [.name "key"] [] []⟩]]

/-- An engine with the first of the folk. -/
def house (n : Nat) : Engine :=
  { registry := { knowsFunctions := true }
    config := {}
    schema := (Schema.ofCatalog {}).toOption.getD {}
    state := { entities := .ofList ((folk.take n).map fun e => (e.name, e)), dice := { seed := 0 } }
    history := .ofList [] }

theorem reachable_house : Reachable (house 5) := by
  have empty : Engine.start {} { knowsFunctions := true } = .ok (house 0) := rfl
  have start : Reachable (house 0) := .start empty
  have one : Reachable (house 1) := start.insert (e := .named "hero") rfl
  have two : Reachable (house 2) := one.insert (e := .named "east") rfl
  have three : Reachable (house 3) := two.insert (e := .named "west") rfl
  have four : Reachable (house 4) := three.insert (e := .named "key") rfl
  exact four.insert (e := folk[4]) rfl

/-- To open the one or the other door. -/
def openings : List Choice := [⟨"hero", "east", "open"⟩, ⟨"hero", "west", "open"⟩]

/-- Which door opens depends on which was tried before. -/
theorem passingMoves_eq_iff_house : ∃ ps next g₁ g₂,
    passingMoves 1 openings (house 5) = some (.ok ps, g₁) ∧
      successors 1 openings (house 5) = some (.ok next, g₂) ∧
      ¬ Independent (house 5) (house 5) openings := by
  have kp : passingMoves 1 openings (house 5) =
      some (.ok [⟨"hero", "east", "open"⟩], house 5) := rfl
  obtain ⟨next, ks, choices⟩ : ∃ next, successors 1 openings (house 5) =
      some (.ok next, house 5) ∧ next.map (·.1) = openings := ⟨_, rfl, rfl⟩
  obtain ⟨_, same, _⟩ := passingMoves_eq_iff kp ks
  refine ⟨_, next, _, _, kp, ks, fun independent => ?_⟩
  rw [choices] at same
  exact absurd (same.2 independent) (by decide)

/-- **A search can find other choices the one way than the other.**  The key that is
used up to try the first door is missing for the second, which a hero with the key
can open just as well. -/
theorem passingMoves_ne_successors : Reachable (house 5) ∧ ∃ ps next,
    passingMoves 1 openings (house 5) = some (.ok ps, house 5) ∧
      successors 1 openings (house 5) = some (.ok next, house 5) ∧
      ps = [⟨"hero", "east", "open"⟩] ∧ next.map (·.1) = openings ∧ ps ≠ next.map (·.1) := by
  have kp : passingMoves 1 openings (house 5) =
      some (.ok [⟨"hero", "east", "open"⟩], house 5) := rfl
  obtain ⟨next, ks, choices⟩ : ∃ next, successors 1 openings (house 5) =
      some (.ok next, house 5) ∧ next.map (·.1) = openings := ⟨_, rfl, rfl⟩
  refine ⟨reachable_house, _, next, kp, ks, rfl, choices, ?_⟩
  rw [choices]
  decide

end Search

end Tabletop
