/-
# Congruence: from the pieces of a script to the whole script

What a script does to a game is put together from few pieces: it looks
something up, it mutates an entity, rolls, compiles a text (`Alters`) or makes
an entry in the log, it schedules a callback, and it uses its powers.  A
relation between runs that holds of these and passes from the parts of a run to
the whole (`Congruence`) therefore holds of the same script under related
powers (`Interpreter.run_related`), and of every move and callback
(`Move.perform_related`, `Delay.fire_related`).

The induction over expressions is made here and nowhere else.  A law about one
run is the case of a relation that looks at one side only.
-/

import Tabletop.Play.Game
import Tabletop.Proofs.Effect

namespace Tabletop

/-- A mutation, whatever it comes to, a roll, a compiled text or an entry in the log: a
piece that leaves the clock, the queue of delays and the history alone. -/
inductive Touch (g : Engine) : Engine → Prop
  | still : Touch g g
  | compile {raw s h} : g.compile raw = .ok (s, h) → Touch g h
  | insert {e r h} : Mutation.insert e g = some (r, h) → Touch g h
  | changeStat {name stat change r h} :
      Mutation.changeStat name stat change g = some (r, h) → Touch g h
  | setString {name string value r h} :
      Mutation.setString name string value g = some (r, h) → Touch g h
  | appendItem {name list item r h} :
      Mutation.appendItem name list item g = some (r, h) → Touch g h
  | removeItem {name list item r h} :
      Mutation.removeItem name list item g = some (r, h) → Touch g h
  | travel {name goal r h} : Mutation.travel name goal g = some (r, h) → Touch g h
  | delete {name r h} : Mutation.delete name g = some (r, h) → Touch g h
  | recruit {template location owner list r h} :
      Mutation.recruit template location owner list g = some (r, h) → Touch g h
  | roll {low high n h} : g.roll low high = .ok (n, h) → Touch g h
  | log (c : Choice) : Touch g (Move.log c g)

/-- **Every piece has one of the effects.** -/
theorem Touch.effect {g h : Engine} (t : Touch g h) : g.Effect (fun _ => True) h := by
  cases t with
  | still => exact .still
  | compile k => exact Engine.effect_compile k
  | insert k => exact Engine.effect_insert trivial k
  | changeStat k => exact Engine.effect_changeStat k
  | setString k => exact Engine.effect_setString k
  | appendItem k => exact Engine.effect_appendItem k
  | removeItem k => exact Engine.effect_removeItem k
  | travel k => exact Engine.effect_travel k
  | delete k => exact Engine.effect_delete k
  | recruit k => exact Engine.effect_recruit k
  | roll k => exact Engine.effect_roll k
  | log c => exact .logged c

/-- A piece of a script: one that adds no entity. -/
structure Alters (g h : Engine) : Prop where
  touch : Touch g h
  effect : g.Effect (fun _ => False) h

namespace Alters

section Mutations

variable {g h : Engine} {name : String} {r : Except Fault Bool}

theorem changeStat {stat : String} {change : StatChange}
    (k : Mutation.changeStat name stat change g = some (r, h)) : Alters g h :=
  ⟨.changeStat k, Engine.effect_changeStat k⟩

theorem setString {string value : String}
    (k : Mutation.setString name string value g = some (r, h)) : Alters g h :=
  ⟨.setString k, Engine.effect_setString k⟩

theorem appendItem {list : String} {item : Item}
    (k : Mutation.appendItem name list item g = some (r, h)) : Alters g h :=
  ⟨.appendItem k, Engine.effect_appendItem k⟩

theorem removeItem {list : String} {item : Item}
    (k : Mutation.removeItem name list item g = some (r, h)) : Alters g h :=
  ⟨.removeItem k, Engine.effect_removeItem k⟩

theorem travel {goal : Option Coord} (k : Mutation.travel name goal g = some (r, h)) : Alters g h :=
  ⟨.travel k, Engine.effect_travel k⟩

theorem delete (k : Mutation.delete name g = some (r, h)) : Alters g h :=
  ⟨.delete k, Engine.effect_delete k⟩

theorem recruit {template : String} {location : Option Coord} {owner list : Option String}
    {r : Except Fault (Option String)}
    (k : Mutation.recruit template location owner list g = some (r, h)) : Alters g h :=
  ⟨.recruit k, Engine.effect_recruit k⟩

end Mutations

theorem compile {g h : Engine} {raw : String} {s : Script} (k : g.compile raw = .ok (s, h)) :
    Alters g h := ⟨.compile k, Engine.effect_compile k⟩

theorem roll {g h : Engine} {low high n : Int} (k : g.roll low high = .ok (n, h)) : Alters g h :=
  ⟨.roll k, Engine.effect_roll k⟩

/-- Making a value a callback compiles at most. -/
theorem callback {g h : Engine} {v : Value} {c : Callback} (e : g.callback v = .ok (c, h)) :
    Alters g h := by
  unfold Engine.callback at e
  split at e
  · next source =>
    cases hs : g.compile source with
    | error fault => rw [hs] at e; cases e
    | ok r => rw [hs] at e; cases e; exact .compile hs
  · cases e; exact ⟨.still, .still⟩
  · next name =>
    cases hn : g.entity name with
    | error fault => rw [hn] at e; cases e
    | ok _ => rw [hn] at e; cases e; exact ⟨.still, .still⟩
  · cases e

end Alters

/-- A relation between runs that holds of the pieces and passes from the parts of a
run to the whole. -/
structure Congruence (R : {α : Type} → Run α → Run α → Prop) : Prop where
  ask : ∀ {α : Type} (f : Engine → Except Fault α), R (Run.ask f) (Run.ask f)
  bind : ∀ {α β : Type} {x y : Run α} {f k : α → Run β},
    R x y → (∀ a, R (f a) (k a)) → R (x >>= f) (y >>= k)
  piece : ∀ {α : Type} {x : Run α}, (∀ {g r h}, x g = some (r, h) → Alters g h) → R x x
  log : ∀ c, R (Run.update (Move.log c)) (Run.update (Move.log c))
  schedule : ∀ callback ticks scope,
    R (Run.update (Clock.schedule callback ticks scope))
      (Run.update (Clock.schedule callback ticks scope))

/-- The relation between computations of scripts, scope by scope. -/
def Lifted (R : {α : Type} → Run α → Run α → Prop) {α : Type} (x y : Scoped α) : Prop :=
  ∀ s, R (x s) (y s)

/-- Powers that are related, each to each. -/
structure Powers.Related (R : {α : Type} → Run α → Run α → Prop) (p q : Powers) : Prop where
  test : ∀ c, R (p.test c) (q.test c)
  perform : ∀ casters targets moves,
    R (p.perform casters targets moves) (q.perform casters targets moves)
  pass : ∀ n, R (p.pass n) (q.pass n)

variable {R : {α : Type} → Run α → Run α → Prop} {α β : Type}

namespace Congruence

/-- A given result. -/
theorem result (hR : Congruence R) (a : α) : R (pure a) (pure a) := hR.ask fun _ => .ok a

/-- A change that fails leaves the engine as it is. -/
theorem change (hR : Congruence R) {f : Engine → Except Fault (α × Engine)}
    (h : ∀ {g a h}, f g = .ok (a, h) → Alters g h) : R (Run.change f) (Run.change f) := by
  refine hR.piece fun {g r m} k => ?_
  unfold Run.change at k
  split at k
  · cases k
    exact ⟨.still, .still⟩
  · next e =>
    cases k
    exact h e

theorem sweep (hR : Congruence R) {x y : α → Run Bool} (h : ∀ a, R (x a) (y a)) (items : List α) :
    R (Run.sweep x items) (Run.sweep y items) := by
  unfold Run.sweep
  generalize false = any
  induction items generalizing any with
  | nil => exact hR.result any
  | cons a items ih =>
    rw [List.foldlM_cons, List.foldlM_cons]
    exact hR.bind (hR.bind (h a) fun now => hR.result (any || now)) ih

theorem liftBind (hR : Congruence R) {x y : Scoped α} {f k : α → Scoped β}
    (hx : Lifted R x y) (hf : ∀ a, Lifted R (f a) (k a)) : Lifted R (x >>= f) (y >>= k) :=
  fun s => hR.bind (hx s) fun p => hf p.1 p.2

theorem liftResult (hR : Congruence R) (a : α) : Lifted R (pure a) (pure a) :=
  fun s => hR.result (a, s)

theorem liftRun (hR : Congruence R) {x y : Run α} (h : R x y) : Lifted R (liftM x) (liftM y) :=
  fun s => hR.bind h fun a => hR.result (a, s)

theorem liftAsk (hR : Congruence R) (f : Engine → Except Fault α) :
    Lifted R (liftM (Run.ask f)) (liftM (Run.ask f)) := hR.liftRun (hR.ask f)

theorem liftGet (hR : Congruence R) : Lifted R (get : Scoped Scope) get :=
  fun s => hR.result (s, s)

theorem liftModify (hR : Congruence R) (f : Scope → Scope) :
    Lifted R (modify f : Scoped Unit) (modify f) := fun s => hR.result ((), f s)

theorem liftThrow (hR : Congruence R) (fault : Fault) :
    Lifted R (throw fault : Scoped α) (throw fault) := hR.liftAsk fun _ => .error fault

/-- A scope of its own. -/
theorem within (hR : Congruence R) {x y : Scoped α} (h : Lifted R x y) (scope : Scope) :
    R (x.within scope) (y.within scope) := hR.bind (h scope) fun p => hR.result p.1

end Congruence

/-! ### Scripts -/

namespace Change

theorem each_related (hR : Congruence R) (names : List String) {edit : String → Run Bool}
    (h : ∀ {name g r h}, edit name g = some (r, h) → Alters g h) :
    R (each names edit) (each names edit) :=
  hR.bind (hR.sweep (fun _ => hR.piece h) names) fun _ => hR.result _

theorem stat_related (hR : Congruence R) (a : Arguments) (change : Int → StatChange) :
    R (stat a change) (stat a change) :=
  hR.bind (hR.ask _) fun names => hR.bind (hR.ask _) fun _ => hR.bind (hR.ask _) fun _ =>
    each_related hR names .changeStat

theorem list_related (hR : Congruence R) (a : Arguments) {edit : String → String → Item → Run Bool}
    (h : ∀ {name list item g r h}, edit name list item g = some (r, h) → Alters g h) :
    R (list a edit) (list a edit) :=
  hR.bind (hR.ask _) fun names => hR.bind (hR.ask _) fun _ => hR.bind (hR.ask _) fun _ =>
    hR.bind (hR.ask _) fun _ => each_related hR names h

theorem enlist_related (hR : Congruence R) (a : Arguments) : R (enlist a) (enlist a) :=
  hR.bind (hR.ask _) fun _ => hR.bind (hR.ask _) fun _ => hR.bind (hR.ask _) fun _ =>
    hR.bind (hR.ask _) fun _ => hR.bind (hR.piece .recruit) fun _ => hR.result _

/-- An edit is related to itself. -/
theorem run_related (hR : Congruence R) (c : Change) (a : Arguments) : R (c.run a) (c.run a) := by
  cases c with
  | statAdd | statSub | statSet => exact stat_related hR a _
  | stringSet =>
    exact hR.bind (hR.ask _) fun names => hR.bind (hR.ask _) fun _ => hR.bind (hR.ask _) fun _ =>
      each_related hR names .setString
  | listAdd => exact list_related hR a .appendItem
  | listRemove => exact list_related hR a .removeItem
  | travel =>
    exact hR.bind (hR.ask _) fun names => hR.bind (hR.ask _) fun _ =>
      each_related hR names .travel
  | delete => exact hR.bind (hR.ask _) fun names => each_related hR names .delete
  | recruit => exact enlist_related hR a

end Change

namespace Interpreter

variable {p q : Powers}

theorem control_related (hR : Congruence R) (h : p.Related R q) (c : Control) (a : Arguments) :
    Lifted R (control p c a) (control q c a) := by
  cases c with
  | roll =>
    exact hR.liftBind (hR.liftAsk _) fun (_, _) =>
      hR.liftBind (hR.liftRun (hR.change .roll)) fun _ =>
        hR.liftResult _
  | test =>
    exact hR.liftBind (hR.liftAsk _) fun _ => hR.liftBind (hR.liftAsk _) fun _ =>
      hR.liftBind (hR.liftAsk _) fun _ => hR.liftBind (hR.liftRun (h.test _)) fun _ =>
        hR.liftResult _
  | perform =>
    exact hR.liftBind (hR.liftAsk _) fun _ => hR.liftBind (hR.liftAsk _) fun _ =>
      hR.liftBind (hR.liftAsk _) fun _ => hR.liftBind (hR.liftRun (h.perform _ _ _)) fun _ =>
        hR.liftResult _
  | delay =>
    exact hR.liftBind (hR.liftAsk _) fun _ => hR.liftBind (hR.liftAsk _) fun _ =>
      hR.liftBind (hR.liftRun (hR.change .callback)) fun _ => hR.liftBind hR.liftGet fun _ =>
        hR.liftBind (hR.liftRun (hR.schedule _ _ _)) fun _ => hR.liftResult _
  | advance =>
    exact hR.liftBind (hR.liftAsk _) fun n => hR.liftBind (hR.liftRun (h.pass n)) fun _ =>
      hR.liftResult _

theorem call_related (hR : Congruence R) (h : p.Related R q) (f : Builtin) (a : Arguments) :
    Lifted R (call p f a) (call q f a) := by
  cases f with
  | query _ => exact hR.liftBind hR.liftGet fun _ => hR.liftAsk _
  | assign =>
    exact hR.liftBind (hR.liftAsk _) fun _ => hR.liftBind (hR.liftAsk _) fun _ =>
      hR.liftBind (hR.liftModify _) fun _ => hR.liftResult _
  | change c => exact hR.liftRun (Change.run_related hR c a)
  | control c => exact control_related hR h c a

mutual

/-- An expression evaluates alike under related powers. -/
theorem eval_related (hR : Congruence R) (h : p.Related R q) :
    ∀ e : Expr, Lifted R (eval p e) (eval q e)
  | .literal _ => by rw [eval, eval]; exact hR.liftResult _
  | .role _ => by
    rw [eval, eval]
    exact hR.liftBind hR.liftGet fun _ => hR.liftResult _
  | .name _ => by rw [eval, eval]; exact hR.liftResult _
  | .list items => by
    rw [eval, eval]
    exact hR.liftBind (evalAll_related hR h items) fun _ => hR.liftResult _
  | .tuple items => by
    rw [eval, eval]
    exact hR.liftBind (evalAll_related hR h items) fun _ => hR.liftResult _
  | .call target args variadic named => by
    rw [eval, eval]
    exact hR.liftBind (evalAll_related hR h args) fun _ =>
      hR.liftBind (evalAll_related hR h variadic) fun _ =>
        hR.liftBind (evalNamed_related hR h named) fun _ =>
          hR.liftBind (hR.liftAsk _) fun f => call_related hR h f _

theorem evalAll_related (hR : Congruence R) (h : p.Related R q) :
    ∀ es : List Expr, Lifted R (evalAll p es) (evalAll q es)
  | [] => by rw [evalAll, evalAll]; exact hR.liftResult []
  | e :: es => by
    rw [evalAll, evalAll]
    exact hR.liftBind (eval_related hR h e) fun v =>
      hR.liftBind (evalAll_related hR h es) fun vs => hR.liftResult (v :: vs)

theorem evalNamed_related (hR : Congruence R) (h : p.Related R q) :
    ∀ es : List (String × Expr), Lifted R (evalNamed p es) (evalNamed q es)
  | [] => by rw [evalNamed, evalNamed]; exact hR.liftResult []
  | (name, e) :: es => by
    rw [evalNamed, evalNamed]
    exact hR.liftBind (eval_related hR h e) fun v =>
      hR.liftBind (evalNamed_related hR h es) fun vs => hR.liftResult ((name, v) :: vs)

end

/-- **A script runs alike under related powers.** -/
theorem run_related (hR : Congruence R) (h : p.Related R q) (s : Script) :
    Lifted R (run p s) (run q s) := eval_related hR h s.code

end Interpreter

/-! ### Moves and callbacks -/

namespace Move

variable {run run' : Runner}

theorem requires_related (hR : Congruence R) (h : ∀ s, Lifted R (run s) (run' s)) :
    ∀ ss : List Script, Lifted R (requires run ss) (requires run' ss)
  | [] => hR.liftResult _
  | s :: ss => hR.liftBind (h s) fun _ => hR.liftBind (hR.liftAsk _) fun pass => by
      cases pass
      · exact hR.liftResult _
      · exact requires_related hR h ss

theorem effects_related (hR : Congruence R) (h : ∀ s, Lifted R (run s) (run' s)) :
    ∀ ss : List Script, Lifted R (effects run ss) (effects run' ss)
  | [] => hR.liftResult ()
  | s :: ss => hR.liftBind (h s) fun _ => effects_related hR h ss

theorem mover_related (hR : Congruence R) : Lifted R mover mover :=
  hR.liftBind hR.liftGet fun s => by
    cases s.bindings.mover with
    | none => exact hR.liftThrow _
    | some name => exact hR.liftResult name

theorem check_related (hR : Congruence R) (h : ∀ s, Lifted R (run s) (run' s)) :
    Lifted R (check run) (check run') :=
  hR.liftBind (mover_related hR) fun _ => hR.liftBind (hR.liftAsk _) fun ss =>
    requires_related hR h ss

theorem make_related (hR : Congruence R) (h : ∀ s, Lifted R (run s) (run' s)) :
    Lifted R (make run) (make run') :=
  hR.liftBind (check_related hR h) fun c => by
    cases c with
    | refused _ => exact hR.liftResult _
    | passed =>
      exact hR.liftBind (mover_related hR) fun _ => hR.liftBind (hR.liftAsk _) fun ss =>
        hR.liftBind (effects_related hR h ss) fun _ => hR.liftResult _

theorem test_related (hR : Congruence R) (h : ∀ s, Lifted R (run s) (run' s)) (c : Choice) :
    R (test run c) (test run' c) :=
  hR.bind (hR.ask _) fun _ => hR.bind (hR.ask _) fun _ => hR.bind (hR.ask _) fun _ =>
    hR.within (check_related hR h) _

theorem attempt_related (hR : Congruence R) (h : ∀ s, Lifted R (run s) (run' s)) (c : Choice) :
    R (attempt run c) (attempt run' c) :=
  hR.bind (hR.within (make_related hR h) _) fun check => by
    cases check with
    | refused _ => exact hR.result false
    | passed => exact hR.bind (hR.log c) fun _ => hR.result true

/-- Every combination of selectors is performed alike. -/
theorem perform_related (hR : Congruence R) (h : ∀ s, Lifted R (run s) (run' s))
    (casters targets moves : Selector) :
    R (perform run casters targets moves) (perform run' casters targets moves) :=
  hR.bind (hR.ask _) fun casters => hR.bind (hR.ask _) fun targets =>
    hR.bind (hR.ask _) fun moves =>
      hR.sweep (fun caster => hR.sweep (fun target =>
        hR.sweep (fun mover => attempt_related hR h ⟨caster, target, mover⟩) moves) targets) casters

theorem tickRule_related (hR : Congruence R) (h : ∀ s, Lifted R (run s) (run' s)) :
    R (tickRule run) (tickRule run') :=
  hR.bind (hR.ask fun g => .ok g) fun g => by
    dsimp only
    split
    · exact hR.bind (hR.within (make_related hR h) _) fun _ => hR.result ()
    · exact hR.result ()

end Move

/-- A callback fires alike. -/
theorem Delay.fire_related (hR : Congruence R) {run run' : Runner}
    (h : ∀ s, Lifted R (run s) (run' s)) (d : Delay) : R (d.fire run) (d.fire run') := by
  unfold Delay.fire
  split
  · exact hR.bind (hR.within (h _) _) fun _ => hR.result ()
  · exact hR.bind (hR.ask _) fun _ => hR.bind (hR.within (Move.make_related hR h) _) fun _ =>
      hR.result ()

end Tabletop
