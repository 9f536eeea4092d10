/-
# Combinations: performing many moves one by one

Performing a move takes selectors, and is about every combination of who is selected.  The
selectors are asked once, before any move is made; three sweeps inside each other then
attempt one combination after another, which is one sweep over the row of all of them
(`Run.sweep_flatMap`, `Move.perform_eq_sweep`).  A sweep comes to what its calls come to
(`Run.sweep_eq_some_iff`).

To perform a single combination is to ask again whether its entities exist, and then to
attempt it.  Whoever is selected exists where entities and board agree, as they do at every
moment of a game (`Move.contains_of_mem_combinations`), and still does when its turn comes,
unless a combination before deleted it (`Move.Spares`).  So the sweep is the row of single
performances, by induction on the row (`Move.calls_attempt_iff`, `Game.perform_eq_calls`).
Each combination is made in a scope of its own, in which nothing is stored (`Move.Turns`).
-/

import Tabletop.Proofs.Coherence
import Tabletop.Proofs.Prediction

namespace Tabletop

namespace Run

variable {α β : Type} {x : α → Run Bool} {g h m : Engine} {a : α} {as : List α}

/-! ### Sweeps -/

/-- Whether any answered true, before or in a sweep. -/
theorem foldlM_sweep (x : α → Run Bool) (as : List α) (any : Bool) :
    (as.foldlM (fun any a => do let now ← x a; return any || now) any : Run Bool) =
      (do let later ← sweep x as; return any || later) := by
  induction as generalizing any with
  | nil => simp [sweep]
  | cons a as ih =>
    rw [sweep, List.foldlM_cons, List.foldlM_cons]
    simp only [bind_assoc, pure_bind, Bool.false_or]
    refine congrArg (x a >>= ·) (funext fun now => ?_)
    rw [ih, ih]
    simp only [bind_assoc, pure_bind, Bool.or_assoc]

/-- A sweep over a first item and others. -/
theorem sweep_cons (x : α → Run Bool) (a : α) (as : List α) : sweep x (a :: as) = (do
    let now ← x a
    let later ← sweep x as
    return now || later) := by
  rw [sweep, List.foldlM_cons]
  simp only [foldlM_sweep, bind_assoc, pure_bind, Bool.false_or]

/-- A sweep over one row and then another. -/
theorem sweep_append (x : α → Run Bool) (as bs : List α) : sweep x (as ++ bs) = (do
    let now ← sweep x as
    let later ← sweep x bs
    return now || later) := by
  rw [sweep, List.foldlM_append]
  simp only [foldlM_sweep, bind_assoc, pure_bind, Bool.false_or]

theorem sweep_map (x : β → Run Bool) (f : α → β) (as : List α) :
    sweep (fun a => x (f a)) as = sweep x (as.map f) := by
  rw [sweep, sweep, List.foldlM_map]

/-- **A sweep of sweeps is one sweep** over their rows, one after another. -/
theorem sweep_flatMap (x : β → Run Bool) (f : α → List β) (as : List α) :
    sweep (fun a => sweep x (f a)) as = sweep x (as.flatMap f) := by
  induction as with
  | nil => rfl
  | cons a as ih => rw [sweep_cons, List.flatMap_cons, sweep_append, ih]

/-! ### Rows of calls -/

/-- Calls that are made in order, each in the engine that the one before left, up to the first
that fails: what they answer, and the engine that is left. -/
inductive Calls (x : α → Run Bool) : Engine → List α → Except Fault (List Bool) → Engine → Prop
  | done {g : Engine} : Calls x g [] (.ok []) g
  | failed {g h : Engine} {a : α} {as : List α} {fault : Fault} :
      x a g = some (.error fault, h) → Calls x g (a :: as) (.error fault) h
  | next {g h m : Engine} {a : α} {as : List α} {answer : Bool}
      {answers : Except Fault (List Bool)} : x a g = some (.ok answer, m) →
      Calls x m as answers h → Calls x g (a :: as) (answers.map (answer :: ·)) h

/-- **A sweep comes to what its calls come to**: to their first fault, or to whether one of
them answered true. -/
theorem sweep_eq_some_iff {r : Except Fault Bool} : sweep x as g = some (r, h) ↔
    ∃ answers, Calls x g as answers h ∧ r = answers.map (·.any id) := by
  constructor
  · intro k
    induction as generalizing g r with
    | nil =>
      cases k
      exact ⟨_, .done, rfl⟩
    | cons a as ih =>
      rw [sweep_cons] at k
      rcases bind_eq_some_iff.1 k with ⟨fault, rfl, first⟩ | ⟨answer, m, first, k⟩
      · exact ⟨_, .failed first, rfl⟩
      rcases bind_eq_some_iff.1 k with ⟨fault, rfl, others⟩ | ⟨later, n, others, k⟩
      · obtain ⟨answers, row, same⟩ := ih others
        refine ⟨_, .next first row, ?_⟩
        cases answers <;> cases same
        rfl
      · cases k
        obtain ⟨answers, row, same⟩ := ih others
        refine ⟨_, .next first row, ?_⟩
        cases answers <;> cases same
        simp [Except.map]
  · rintro ⟨answers, row, rfl⟩
    induction row with
    | done => rfl
    | failed first =>
      rw [sweep_cons]
      exact bind_apply_error first
    | @next g h m a as answer answers first row ih =>
      rw [sweep_cons, bind_apply_ok first]
      cases answers with
      | error fault => exact bind_apply_error ih
      | ok answers =>
        refine (bind_apply_ok ih).trans ?_
        simp [Except.map, pure_apply]

/-- Rows agree if their calls do wherever the row comes to: the first call now, and the others
in the engine that it leaves. -/
theorem Calls.congr {y : α → Run Bool} {P : List α → Engine → Prop}
    (step : ∀ {a as g}, P (a :: as) g → x a g = y a g ∧
      ∀ {answer m}, x a g = some (.ok answer, m) → P as m)
    {answers : Except Fault (List Bool)} (k : Calls x g as answers h) (hP : P as g) :
    Calls y g as answers h := by
  induction k with
  | done => exact .done
  | failed first => exact .failed ((step hP).1 ▸ first)
  | next first _ ih =>
    obtain ⟨same, others⟩ := step hP
    exact .next (same ▸ first) (ih (others first))

end Run

/-! ### Combinations -/

namespace Choice

/-- The entities a choice names. -/
def names (c : Choice) : List String := [c.caster, c.target, c.mover]

/-- Every combination of three rows of names, in lexicographic order. -/
def combinations (casters targets movers : List String) : List Choice :=
  casters.flatMap fun caster => targets.flatMap fun target =>
    movers.map fun mover => ⟨caster, target, mover⟩

/-- The names of a combination are of the rows. -/
theorem mem_of_mem_combinations {casters targets movers : List String} {c : Choice}
    (h : c ∈ combinations casters targets movers) :
    c.caster ∈ casters ∧ c.target ∈ targets ∧ c.mover ∈ movers := by
  obtain ⟨caster, hc, h⟩ := List.mem_flatMap.1 h
  obtain ⟨target, ht, h⟩ := List.mem_flatMap.1 h
  obtain ⟨mover, hm, rfl⟩ := List.mem_map.1 h
  exact ⟨hc, ht, hm⟩

/-- The scope a combination is made in: its entities in their roles, and nothing stored. -/
def scope (c : Choice) : Scope := { bindings := .ofChoice c }

theorem stored_scope (c : Choice) (name : String) : c.scope.stored name = .none := rfl

end Choice

namespace Move

variable {run : Runner} {g h m : Engine} {c : Choice} {cs : List Choice}

/-- No combination deletes an entity that a later one names. -/
def Spares (run : Runner) : List Choice → Engine → Prop
  | [], _ => True
  | c :: cs, g => ∀ passed h, attempt run c g = some (.ok passed, h) →
      (∀ later ∈ cs, ∀ name ∈ later.names, g.contains name → h.contains name) ∧ Spares run cs h

/-- Combinations that are made in order, each in a scope with nothing stored, in the engine that
the one before left: those that pass are logged, and what they leave stored is dropped. -/
inductive Turns (run : Runner) :
    Engine → List Choice → Except Fault (List Bool) → Engine → Prop
  | done {g : Engine} : Turns run g [] (.ok []) g
  | failed {g h : Engine} {c : Choice} {cs : List Choice} {fault : Fault} :
      make run c.scope g = some (.error fault, h) → Turns run g (c :: cs) (.error fault) h
  | refused {g h m : Engine} {c : Choice} {cs : List Choice} {answers : Except Fault (List Bool)}
      {s : Script} {left : Scope} : make run c.scope g = some (.ok (.refused s, left), m) →
      Turns run m cs answers h → Turns run g (c :: cs) (answers.map (false :: ·)) h
  | passed {g h m : Engine} {c : Choice} {cs : List Choice} {answers : Except Fault (List Bool)}
      {left : Scope} : make run c.scope g = some (.ok (.passed, left), m) →
      Turns run (log c m) cs answers h → Turns run g (c :: cs) (answers.map (true :: ·)) h

/-- An attempt fails exactly if making the move fails. -/
theorem attempt_eq_error_iff {fault : Fault} :
    attempt run c g = some (.error fault, h) ↔ make run c.scope g = some (.error fault, h) := by
  constructor
  · intro k
    rcases Run.bind_eq_error_iff.1 k with k | ⟨verdict, m, _, k⟩
    · rcases Run.bind_eq_error_iff.1 k with k | ⟨_, _, _, k⟩
      · exact k
      · cases k
    · cases verdict with
      | refused s => cases k
      | passed =>
        rcases Run.bind_eq_error_iff.1 k with k | ⟨_, _, _, k⟩
        · cases k
        · cases k
  · exact fun k => Run.bind_apply_error (Run.bind_apply_error k)

/-- An attempt that is refused has made the move up to the require that refuses, and one that
passes has made it and logged it. -/
theorem attempt_eq_ok_iff {answer : Bool} : attempt run c g = some (.ok answer, h) ↔
    (∃ s left, make run c.scope g = some (.ok (.refused s, left), h) ∧ answer = false) ∨
    ∃ left m, make run c.scope g = some (.ok (.passed, left), m) ∧ h = log c m ∧
      answer = true := by
  constructor
  · intro k
    obtain ⟨verdict, m, kw, k⟩ := Run.bind_eq_ok_iff.1 k
    obtain ⟨left, made⟩ := Scoped.within_eq_ok_iff.1 kw
    cases verdict with
    | refused s =>
      cases k
      exact .inl ⟨s, left, made, rfl⟩
    | passed =>
      cases k
      exact .inr ⟨left, m, made, rfl, rfl⟩
  · rintro (⟨s, left, made, rfl⟩ | ⟨left, m, made, rfl, rfl⟩)
    all_goals exact Run.bind_apply_ok (Scoped.within_eq_ok_iff.2 ⟨left, made⟩)

/-- **Attempts in order are combinations made in order**, each in a scope of its own. -/
theorem turns_iff_calls {answers : Except Fault (List Bool)} :
    Turns run g cs answers h ↔ Run.Calls (attempt run) g cs answers h := by
  constructor
  · intro row
    induction row with
    | done => exact .done
    | failed made => exact .failed (attempt_eq_error_iff.2 made)
    | refused made _ ih => exact .next (attempt_eq_ok_iff.2 (.inl ⟨_, _, made, rfl⟩)) ih
    | passed made _ ih => exact .next (attempt_eq_ok_iff.2 (.inr ⟨_, _, made, rfl, rfl⟩)) ih
  · intro row
    induction row with
    | done => exact .done
    | failed first => exact .failed (attempt_eq_error_iff.1 first)
    | next first _ ih =>
      obtain ⟨s, left, made, rfl⟩ | ⟨left, m, made, rfl, rfl⟩ := attempt_eq_ok_iff.1 first
      · exact .refused made ih
      · exact .passed made ih

/-- To perform what selectors are about is to attempt every combination of it, in order. -/
theorem perform_eq_sweep {casters targets moves : Selector} {cs ts ms : List String}
    (hc : g.select casters = .ok cs) (ht : g.select targets = .ok ts)
    (hm : g.select moves = .ok ms) : perform run casters targets moves g =
      Run.sweep (attempt run) (Choice.combinations cs ts ms) g := by
  have found {s : Selector} {names : List String} (h : g.select s = .ok names) :
      Run.ask (·.select s) g = some (.ok names, g) := by rw [Run.ask, h]
  unfold perform
  rw [Run.bind_apply_ok (found hc), Run.bind_apply_ok (found ht), Run.bind_apply_ok (found hm)]
  simp only [Choice.combinations, ← Run.sweep_flatMap, ← Run.sweep_map]

/-- Entities that exist are met. -/
theorem meet_of_contains (h : ∀ name ∈ c.names, g.contains name) :
    meet c g = some (.ok (), g) := by
  have found {name : String} (hn : name ∈ c.names) :
      ∃ e, Run.ask (·.entity name) g = some (.ok e, g) := by
    have known := h name hn
    unfold Engine.contains at known
    rw [Std.ExtTreeMap.contains_eq_isSome_getElem?, Option.isSome_iff_exists] at known
    obtain ⟨e, he⟩ := known
    exact ⟨e, by rw [Run.ask, Engine.entity_eq_ok_iff.2 he]⟩
  obtain ⟨_, caster⟩ := found (show c.caster ∈ c.names by simp [Choice.names])
  obtain ⟨_, target⟩ := found (show c.target ∈ c.names by simp [Choice.names])
  obtain ⟨_, mover⟩ := found (show c.mover ∈ c.names by simp [Choice.names])
  exact (Run.bind_apply_ok caster).trans <| (Run.bind_apply_ok target).trans <|
    Run.bind_apply_ok mover

/-- Everyone whom combinations name exists, and nobody still to come is deleted. -/
def Clear (run : Runner) (cs : List Choice) (g : Engine) : Prop :=
  (∀ c ∈ cs, ∀ name ∈ c.names, g.contains name) ∧ Spares run cs g

/-- To attempt the first of such combinations is to perform it. -/
theorem Clear.attempt_eq (h : Clear run (c :: cs) g) : attempt run c g =
    perform run (.entity c.caster) (.entity c.target) (.entity c.mover) g := by
  have met := meet_of_contains (h.1 c List.mem_cons_self)
  rw [perform_eq]
  exact (Run.bind_apply_ok (f := fun _ => attempt run c) met).symm

/-- Behind the first the others are such combinations still. -/
theorem Clear.next (h : Clear run (c :: cs) g) {passed : Bool}
    (k : attempt run c g = some (.ok passed, m)) : Clear run cs m := by
  obtain ⟨kept, spares⟩ := h.2 passed m k
  refine ⟨fun later there name hn => ?_, spares⟩
  exact kept later there name hn (h.1 later (List.mem_cons_of_mem c there) name hn)

/-- **Attempts in order are performed one by one**, if none of them deletes an entity that a
later one names. -/
theorem calls_attempt_iff {answers : Except Fault (List Bool)} (clear : Clear run cs g) :
    Run.Calls (attempt run) g cs answers h ↔
      Run.Calls (fun c => perform run (.entity c.caster) (.entity c.target) (.entity c.mover)) g
        cs answers h := by
  constructor
  · exact fun k => k.congr (fun now => ⟨now.attempt_eq, now.next⟩) clear
  · exact fun k => k.congr
      (fun now => ⟨now.attempt_eq.symm, fun e => now.next (now.attempt_eq.trans e)⟩) clear

/-- The names of combinations of what selectors are about exist. -/
theorem contains_of_mem_combinations
    (agree : Agree g.config g.state.entities g.state.occupancy) {casters targets moves : Selector}
    {cs ts ms : List String} (hc : g.select casters = .ok cs) (ht : g.select targets = .ok ts)
    (hm : g.select moves = .ok ms) (c : Choice) (h : c ∈ Choice.combinations cs ts ms) :
    ∀ name ∈ c.names, g.contains name := by
  have known {s : Selector} {names : List String} (hs : g.select s = .ok names) {name : String}
      (hn : name ∈ names) : g.contains name = true := by
    obtain ⟨e, he⟩ := Engine.exists_of_mem_select agree hs name hn
    rw [← Bool.not_eq_false, Engine.contains_eq_false_iff, he]
    exact Option.some_ne_none e
  obtain ⟨caster, target, mover⟩ := Choice.mem_of_mem_combinations h
  rw [Choice.names, List.forall_mem_cons, List.forall_mem_cons, List.forall_mem_singleton]
  exact ⟨known hc caster, known ht target, known hm mover⟩

end Move

/-- **To perform what selectors are about is to perform its combinations one by one**, from
outside or in a script.  Where entities and board agree, if no combination of those selected
deletes an entity that a later one names, performing them all ends as the row of the
combinations does, each performed on its own in the engine that the one before left, in
lexicographic order with duplicates repeated: with the first fault, or with whether one of
them passed, and with the same engine and log.  It answers true exactly if every call gives
an answer and one of them is true.

Such a row is a row of turns: each combination is made with its entities in their roles and
nothing stored, whatever those before left stored. -/
theorem Game.perform_eq_calls {g : Engine}
    (agree : Agree g.config g.state.entities g.state.occupancy) {fuel : Nat}
    {casters targets moves : Selector} {cs ts ms : List String} (hc : g.select casters = .ok cs)
    (ht : g.select targets = .ok ts) (hm : g.select moves = .ok ms)
    (spares : Move.Spares (runner fuel) (Choice.combinations cs ts ms) g) :
    (∀ r h, perform fuel casters targets moves g = some (r, h) ↔
      ∃ answers, Run.Calls (performChoice fuel) g (Choice.combinations cs ts ms) answers h ∧
        r = answers.map (·.any id)) ∧
    (∀ h, perform fuel casters targets moves g = some (.ok true, h) ↔
      ∃ answers, Run.Calls (performChoice fuel) g (Choice.combinations cs ts ms) (.ok answers) h ∧
        true ∈ answers) ∧
    (∀ answers h, Run.Calls (performChoice fuel) g (Choice.combinations cs ts ms) answers h ↔
      Move.Turns (runner fuel) g (Choice.combinations cs ts ms) answers h) ∧
    ∀ (c : Choice) (name : String), c.scope.stored name = .none := by
  have exist := Move.contains_of_mem_combinations agree hc ht hm
  have single {answers : Except Fault (List Bool)} {h : Engine} :
      Run.Calls (Move.attempt (runner fuel)) g (Choice.combinations cs ts ms) answers h ↔
        Run.Calls (performChoice fuel) g (Choice.combinations cs ts ms) answers h :=
    Move.calls_attempt_iff ⟨exist, spares⟩
  have row (r : Except Fault Bool) (h : Engine) :
      perform fuel casters targets moves g = some (r, h) ↔
        ∃ answers, Run.Calls (performChoice fuel) g (Choice.combinations cs ts ms) answers h ∧
          r = answers.map (·.any id) := by
    rw [perform, Move.perform_eq_sweep hc ht hm, Run.sweep_eq_some_iff]
    simp only [single]
  refine ⟨row, fun h => ?_, fun answers h => single.symm.trans Move.turns_iff_calls.symm,
    Choice.stored_scope⟩
  rw [row]
  constructor
  · rintro ⟨fault | answers, calls, same⟩
    · cases same
    · exact ⟨answers, calls, by simpa [Except.map] using same⟩
  · rintro ⟨answers, calls, yes⟩
    exact ⟨_, calls, by simpa [Except.map] using yes⟩

/-- A move that whoever makes it may make once: its requires ask whether it was sworn, and store
that it is. -/
def oath : Entity :=
  (Entity.named "oath").append requireList
    [.script ⟨"not (var sworn)",
        .call "not" [.call "stored" [.literal (.str "sworn")] [] []] [] []⟩,
      .script ⟨"let sworn true",
        .call "assign" [.literal (.str "sworn"), .literal (.bool true)] [] []⟩]

/-- An engine with a hero and that move. -/
def court : Engine :=
  { registry := { knowsFunctions := true }
    config := {}
    schema := (Schema.ofCatalog {}).toOption.getD {}
    state := { entities := .ofList [("hero", .named "hero"), ("oath", oath)]
               dice := { seed := 0 } }
    history := .ofList [] }

theorem reachable_court : Reachable court := by
  obtain ⟨start, hs⟩ : ∃ start, Engine.start {} { knowsFunctions := true } = .ok start := ⟨_, rfl⟩
  have joined : [.named "hero", oath].forM Mutation.insert start = some (.ok (), court) := by
    cases hs
    rfl
  exact (Reachable.start hs).insertAll joined

/-- The hero takes the oath. -/
def vow : Choice := ⟨"hero", "hero", "oath"⟩

/-- A hero who is selected twice takes the oath twice: what the first time stores does not
refuse the second. -/
theorem Game.perform_eq_calls_oath : ∃ h answers,
    perform 0 (.many [.entity "hero", .nobody, .entity "hero"]) (.entity "hero") (.entity "oath")
      court = some (.ok true, h) ∧ h.state.log.length = 2 ∧
    Run.Calls (performChoice 0) court [vow, vow] (.ok answers) h ∧ true ∈ answers := by
  obtain ⟨h, performed, logged⟩ : ∃ h, perform 0 (.many [.entity "hero", .nobody, .entity "hero"])
      (.entity "hero") (.entity "oath") court = some (.ok true, h) ∧ h.state.log.length = 2 :=
    ⟨_, rfl, rfl⟩
  have spares : Move.Spares (runner 0) [vow, vow] court := by
    obtain ⟨m, first, kept⟩ : ∃ m, Move.attempt (runner 0) vow court = some (.ok true, m) ∧
        ∀ name, court.contains name → m.contains name := by
      refine ⟨_, rfl, ?_⟩
      exact fun _ known => known
    intro passed m' k
    rw [first] at k
    cases k
    exact ⟨fun _ _ name _ => kept name, fun _ _ _ => ⟨by simp, trivial⟩⟩
  have casters : court.select (.many [.entity "hero", .nobody, .entity "hero"]) =
      .ok ["hero", "hero"] := rfl
  have target : court.select (.entity "hero") = .ok ["hero"] := rfl
  have move : court.select (.entity "oath") = .ok ["oath"] := rfl
  have calls := perform_eq_calls reachable_court.agree.now casters target move spares
  obtain ⟨answers, row, yes⟩ := (calls.2.1 h).1 performed
  exact ⟨h, answers, performed, logged, row, yes⟩

end Tabletop
