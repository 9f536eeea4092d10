/-
# Reachable engines

An engine is reachable if some row of operations leads to it from the start of
a game, whether they succeeded or failed.  Operations that go forward are given
as data (`Operation`); every outcome of one is a timeline
(`Operation.tracked`).  The other way to come to an engine is to roll back, in
place or on a second engine.  A copy is the engine itself, so what is done on
copies leads to reachable engines too; so do the successors that a search finds
(`Reachable.successors`).

A law that holds at the start, and that strokes, rollbacks and delays that go
back to the queue keep, holds of every reachable engine (`Reachable.invariant`).
-/

import Tabletop.Engine.History
import Tabletop.Play.Search
import Tabletop.Proofs.Effect
import Tabletop.Proofs.Timeline

namespace Tabletop

/-- What can be asked of an engine from outside, rolling back apart. -/
inductive Operation
  | compile (raw : String)
  | insert (e : Entity)
  | load (d : Entity.Definition)
  | loadAll (ds : List Entity.Definition)
  | changeStat (name stat : String) (change : StatChange)
  | setString (name string value : String)
  | appendItem (name list : String) (item : Item)
  | removeItem (name list : String) (item : Item)
  | travel (name : String) (goal : Option Coord)
  | recruit (template : String) (location : Option Coord) (owner list : Option String)
  | delete (name : String)
  | evaluate (source : String) (bindings : Bindings)
  | runIn (scope : Scope) (script : Script)
  | test (c : Choice)
  | perform (casters targets moves : Selector)
  | pass (n : Int)
  | drain
  | schedule (callback : Callback) (ticks : Int) (scope : Scope)
  | roll (low high : Int)

namespace Operation

/-- Does an operation on an amount of fuel; what it answers is left out. -/
def run (fuel : Nat) : Operation → Run Unit
  | compile raw => do let _ ← Game.compile raw
  | insert e => Mutation.insert e
  | load d => Game.load d
  | loadAll ds => Game.loadAll ds
  | changeStat name stat change => do let _ ← Mutation.changeStat name stat change
  | setString name string value => do let _ ← Mutation.setString name string value
  | appendItem name list item => do let _ ← Mutation.appendItem name list item
  | removeItem name list item => do let _ ← Mutation.removeItem name list item
  | travel name goal => do let _ ← Mutation.travel name goal
  | recruit template location owner list => do
    let _ ← Mutation.recruit template location owner list
  | delete name => do let _ ← Mutation.delete name
  | evaluate source bindings => do let _ ← Game.evaluate fuel source bindings
  | runIn scope script => do let _ ← (runner fuel script).within scope
  | test c => do let _ ← Game.test fuel c
  | perform casters targets moves => do let _ ← Game.perform fuel casters targets moves
  | pass n => Game.pass fuel n
  | drain => Game.drain fuel
  | schedule callback ticks scope => Game.schedule callback ticks scope
  | roll low high => do let _ ← Game.roll low high

end Operation

namespace Game

theorem compile_tracked (raw : String) : Tracked (compile raw) := tracked_congruence.change .compile

theorem compileAll_tracked : ∀ raws : List String, Tracked (compileAll raws)
  | [] => .ask fun _ => .ok []
  | raw :: raws => .bind (compile_tracked raw) fun s => .bind (compileAll_tracked raws) fun ss =>
      .ask fun _ => .ok (s :: ss)

theorem load_tracked (d : Entity.Definition) : Tracked (load d) :=
  .bind (compileAll_tracked d.require) fun _ => .bind (compileAll_tracked d.effect) fun _ =>
    .piece .insert

theorem loadAll_tracked : ∀ ds : List Entity.Definition, Tracked (loadAll ds)
  | [] => .ask fun _ => .ok ()
  | d :: ds => .bind (load_tracked d) fun _ => loadAll_tracked ds

theorem evaluate_tracked (fuel : Nat) (source : String) (bindings : Bindings) :
    Tracked (evaluate fuel source bindings) :=
  .bind (compile_tracked source) fun s =>
    .bind (tracked_congruence.within (runner_tracked fuel s) _) fun _ => .ask _

theorem pass_tracked (fuel : Nat) (n : Int) : Tracked (pass fuel n) :=
  Clock.tracked_pass (Delay.fire_tracked fuel) (Move.tickRule_tracked fuel) fuel n

theorem drain_tracked (fuel : Nat) : Tracked (drain fuel) :=
  Clock.tracked_drain (Delay.fire_tracked fuel) fuel

end Game

/-- **Every outcome of an operation is a timeline.** -/
theorem Operation.tracked (op : Operation) (fuel : Nat) : Tracked (op.run fuel) := by
  have done {α : Type} {x : Run α} (h : Tracked x) : Tracked (do let _ ← x) :=
    .bind h fun _ => .ask fun _ => .ok ()
  cases op with
  | compile raw => exact done (Game.compile_tracked raw)
  | insert e => exact .piece .insert
  | load d => exact Game.load_tracked d
  | loadAll ds => exact Game.loadAll_tracked ds
  | changeStat name stat change => exact done (.piece .changeStat)
  | setString name string value => exact done (.piece .setString)
  | appendItem name list item => exact done (.piece .appendItem)
  | removeItem name list item => exact done (.piece .removeItem)
  | travel name goal => exact done (.piece .travel)
  | recruit template location owner list => exact done (.piece .recruit)
  | delete name => exact done (.piece .delete)
  | evaluate source bindings => exact done (Game.evaluate_tracked fuel source bindings)
  | runIn scope script => exact done (tracked_congruence.within (runner_tracked fuel script) scope)
  | test c => exact done (Move.test_related tracked_congruence (runner_tracked fuel) c)
  | perform casters targets moves =>
    exact done (Move.perform_related tracked_congruence (runner_tracked fuel) casters targets moves)
  | pass n => exact Game.pass_tracked fuel n
  | drain => exact Game.drain_tracked fuel
  | schedule callback ticks scope => exact .update fun _ _ => .schedule callback ticks scope
  | roll low high => exact done (tracked_congruence.change .roll)

/-- An operation leads from one engine to another, whatever it answers. -/
def Operates (g h : Engine) : Prop :=
  ∃ (op : Operation) (fuel : Nat) (r : Except Fault Unit), op.run fuel g = some (r, h)

/-- What strokes keep, and delays that go back to the queue, operations keep. -/
theorem Operates.preserves {P : Engine → Prop}
    (stroke : ∀ {around a e b}, Stroke around a e b → P a.engine → P b.engine)
    (requeue : ∀ {rest g}, P g → P (Clock.requeue rest g)) {g h : Engine} (k : Operates g h) :
    P g → P h := by
  obtain ⟨op, fuel, r, k⟩ := k
  obtain ⟨es, t⟩ := op.tracked fuel [] g r h k
  exact t.preserves stroke requeue

/-- The engines that operations and rollbacks lead to from the start of a game. -/
inductive Reachable : Engine → Prop
  | start {config registry g} : Engine.start config registry = .ok g → Reachable g
  | operate {g h r} (op : Operation) (fuel : Nat) :
      Reachable g → op.run fuel g = some (r, h) → Reachable h
  | revert {g} (k : Nat) : Reachable g → Reachable (g.revert k).2
  | retrieve {g} (k : Nat) : Reachable g → Reachable (g.retrieve k).2
  | retrieved {g past} (k : Nat) : Reachable g → (g.retrieve k).1 = some past → Reachable past

/-- An entity that is added leads to a reachable engine. -/
theorem Reachable.insert {g h : Engine} {e : Entity} (hg : Reachable g)
    (k : Mutation.insert e g = some (.ok (), h)) : Reachable h :=
  .operate (.insert e) 0 hg k

/-- Entities that are added in order lead to a reachable engine. -/
theorem Reachable.insertAll {g h : Engine} {es : List Entity} (hg : Reachable g)
    (k : es.forM Mutation.insert g = some (.ok (), h)) : Reachable h := by
  induction es generalizing g with
  | nil =>
    cases k
    exact hg
  | cons e es ih =>
    obtain ⟨_, next, hn, k⟩ :=
      Run.bind_eq_ok_iff (x := Mutation.insert e) (f := fun _ => es.forM Mutation.insert) |>.1 k
    exact ih (hg.insert hn) k

/-- What a search finds on a copy is reachable, and the engine is left as it was. -/
theorem Reachable.successor {g h : Engine} {fuel : Nat} {c : Choice}
    {r : Except Fault (Option (Choice × Engine))} (hg : Reachable g)
    (k : Search.successor fuel c g = some (r, h)) :
    h = g ∧ ∀ p, r = .ok (some p) → Reachable p.2 := by
  obtain ⟨⟨r', m⟩, kx, k⟩ := Option.map_eq_some_iff.1 k
  cases k
  refine ⟨rfl, fun p hp => ?_⟩
  cases hp
  obtain ⟨passed, n, kp, k⟩ := Run.bind_eq_ok_iff.1 kx
  have hn : Reachable n :=
    .operate (.perform (.entity c.caster) (.entity c.target) (.entity c.mover)) fuel hg
      (Run.bind_eq_ok_iff.2 ⟨passed, n, kp, rfl⟩)
  obtain ⟨_, _, kg, k⟩ := Run.bind_eq_ok_iff.1 k
  cases kg
  cases passed <;> cases k
  exact hn

theorem Reachable.successors {g h : Engine} {fuel : Nat} {cs : List Choice}
    {r : Except Fault (List (Choice × Engine))} (hg : Reachable g)
    (k : Search.successors fuel cs g = some (r, h)) :
    h = g ∧ ∀ next, r = .ok next → ∀ p ∈ next, Reachable p.2 := by
  induction cs generalizing r h with
  | nil =>
    cases k
    refine ⟨rfl, fun next hn p hp => ?_⟩
    cases hn
    cases hp
  | cons c cs ih =>
    rcases Run.bind_eq_some_iff.1 k with ⟨_, rfl, kf⟩ | ⟨first, m, kf, ks⟩
    · exact ⟨(hg.successor kf).1, fun _ hn => nomatch hn⟩
    obtain ⟨rfl, hf⟩ := hg.successor kf
    rcases Run.bind_eq_some_iff.1 ks with ⟨_, rfl, kr⟩ | ⟨rest, m', kr, ke⟩
    · exact ⟨(ih kr).1, fun _ hn => nomatch hn⟩
    obtain ⟨rfl, hr⟩ := ih kr
    cases ke
    refine ⟨rfl, fun next hn p hp => ?_⟩
    cases hn
    rcases List.mem_append.1 hp with hp | hp
    · exact hf p (by rw [Option.mem_toList.1 hp])
    · exact hr rest rfl p hp

/-- **What holds at the start, and is kept by strokes, rollbacks and delays that go
back to the queue, holds of every reachable engine.** -/
theorem Reachable.invariant {P : Engine → Prop}
    (start : ∀ {config registry g}, Engine.start config registry = .ok g → P g)
    (stroke : ∀ {around a e b}, Stroke around a e b → P a.engine → P b.engine)
    (requeue : ∀ {rest g}, P g → P (Clock.requeue rest g))
    (older : ∀ {g k frame frames}, g.frame? k = some (frame, frames) → P g →
      P { g with history := .ofList frames })
    (back : ∀ {g k frame frames}, g.frame? k = some (frame, frames) → P g →
      P { g with state := frame, history := .ofList frames })
    {g : Engine} (h : Reachable g) : P g := by
  induction h with
  | start h => exact start h
  | operate op fuel _ h ih =>
    exact Operates.preserves stroke requeue ⟨op, fuel, _, h⟩ ih
  | @revert g k _ ih =>
    obtain same | ⟨frame, frames, hf, same⟩ := g.revert_cases k
    · rwa [same]
    · rw [same]
      exact back hf ih
  | @retrieve g k _ ih =>
    obtain same | ⟨frame, frames, hf, same⟩ := g.retrieve_cases k
    · rwa [same]
    · rw [same]
      exact older hf ih
  | retrieved k _ h ih =>
    obtain ⟨frame, frames, hf, rfl⟩ := Engine.retrieve_eq_some h
    exact back hf ih

/-- The schema of a reachable engine is that of its catalog. -/
theorem Reachable.schema_eq {g : Engine} (h : Reachable g) :
    Schema.ofCatalog g.config.catalog = .ok g.schema := by
  refine h.invariant (P := fun g => Schema.ofCatalog g.config.catalog = .ok g.schema)
    (fun hs => ?_) (fun k hg => ?_) id (fun _ hg => hg) (fun _ hg => hg)
  · obtain ⟨schema, hc, hs⟩ := Except.bind_eq_ok_iff.1 hs
    cases hs
    exact hc
  · cases k with
    | touch t => rwa [t.effect.keeps.config, t.effect.keeps.schema]
    | schedule | tick | age | take => exact hg

/-! ### What every game declares -/

section Declared

variable {kinds kinds' : Std.ExtTreeMap String Category}

theorem Schema.declare_eq_ok {d : String × Category} (h : declare kinds d = .ok kinds') :
    kinds[d.1]? = none ∧ kinds' = kinds.insert d.1 d.2 := by
  unfold declare at h
  split at h
  · cases h
  · rename_i new
    cases h
    rw [Std.ExtTreeMap.contains_eq_isSome_getElem?, Option.not_isSome_iff_eq_none] at new
    exact ⟨new, rfl⟩

/-- What is declared stays as it is declared. -/
theorem Schema.getElem?_declared {ds : List (String × Category)} {name : String} {c : Category}
    (h : ds.foldlM declare kinds = .ok kinds') (hc : kinds[name]? = some c) :
    kinds'[name]? = some c := by
  induction ds generalizing kinds with
  | nil =>
    cases h
    exact hc
  | cons d ds ih =>
    rw [List.foldlM_cons] at h
    obtain ⟨next, hd, h⟩ := Except.bind_eq_ok_iff.1 h
    obtain ⟨new, rfl⟩ := declare_eq_ok hd
    have other : d.1 ≠ name := by
      rintro rfl
      rw [new] at hc
      cases hc
    exact ih h (by rw [Std.ExtTreeMap.getElem?_insert, if_neg (by rwa [Std.compare_eq_iff_eq]), hc])

/-- The list of groups is declared in every game. -/
theorem Schema.kind?_groupList {c : Catalog} {s : Schema} (h : Schema.ofCatalog c = .ok s) :
    s.kind? groupList = some (.list false) := by
  obtain ⟨kinds, hk, hs⟩ := Except.bind_eq_ok_iff.1 h
  cases hs
  obtain ⟨first, hd, hk⟩ := Except.bind_eq_ok_iff.1 hk
  obtain ⟨-, rfl⟩ := declare_eq_ok hd
  exact getElem?_declared hk Std.ExtTreeMap.getElem?_insert_self

end Declared

/-- The list of groups is a list in every reachable engine. -/
theorem Reachable.kind?_groupList {g : Engine} (h : Reachable g) :
    g.schema.kind? groupList = some (.list false) :=
  Schema.kind?_groupList h.schema_eq

end Tabletop
