/-
# Gates: which entries of a move count

What a move requires and what it does are entries of two lists, and lists take
names as well as scripts.  A check runs the scripts among the entries and
passes over the names (`Game.test_eq_passed_iff`); a name in a gate is not noticed
anywhere.  So it matters how a name gets there.

There are three ways (`Misfiled`): an entity is added that has one, one is
appended, or a recruit joins a gate as a list of its owner.  Each of them leaves
a name behind in a gate (`Misfiled.not_gated`), and nothing else that happens to
a game does (`Happens.gated_or_misfiled`).  Hence the gates of a game hold
scripts only for as long as no name is misfiled, and while they do, a check
passes only if every entry was run and counts as true (`gates_hold_iff`).

A text given as an entry of the list `require` is such a name, and not compiled:
a door that asks for `1 > 2` that way opens (`gate_unheeded`).
-/

import Mathlib.Data.List.Chain
import Tabletop.Proofs.Memory
import Tabletop.Proofs.Reachable

namespace Tabletop

open Relation (ReflTransGen)

/-- The lists whose scripts a move runs. -/
def gateLists : List String := [requireList, effectList]

/-! ### Entities -/

namespace Entity

variable {e e' : Entity}

/-- The requires and the effects of an entity are scripts. -/
def Gated (e : Entity) : Prop := ∀ list ∈ gateLists, ∀ item ∈ e.list list, ∃ s, item = .script s

theorem gated_iff_every :
    e.Gated ↔ e.Every fun list item => list ∈ gateLists → ∃ s, item = .script s :=
  ⟨fun h list item hi hl => h list hl item hi, fun h list hl item hi => h list item hi hl⟩

theorem gated_append_iff {list : String} {items : List Item} : (e.append list items).Gated ↔
    e.Gated ∧ (list ∈ gateLists → ∀ item ∈ items, ∃ s, item = .script s) := by
  rw [gated_iff_every, gated_iff_every, every_append_iff]
  exact and_congr_right fun _ => ⟨fun h hl item hi => h item hi hl, fun h item hi hl => h hl item hi⟩

theorem Gated.remove (h : e.Gated) {list : String} {item : Item}
    (k : e.remove? list item = some e') : e'.Gated :=
  gated_iff_every.2 ((gated_iff_every.1 h).remove k)

theorem groupList_not_gate : groupList ∉ gateLists := by decide

theorem Gated.recruit (h : e.Gated) (name : String) (location : Option Coord) :
    (e.recruit name location).Gated :=
  gated_iff_every.2 ((gated_iff_every.1 h).recruit (fun hl => absurd hl groupList_not_gate) location)

/-- **The requires and effects of a definition become scripts, and entries that it
gives the lists of these names stay names.** -/
theorem gated_ofDefinition_iff (d : Definition) (require effect : List Script) :
    (ofDefinition d require effect).Gated ↔
      ∀ list ∈ gateLists, ∀ names, d.lists[list]? = some names → names = [] := by
  have none {names : List String} :
      (∀ name ∈ names, ∃ s, Item.name name = .script s) ↔ names = [] := by
    simp [List.eq_nil_iff_forall_not_mem]
  rw [gated_iff_every, every_ofDefinition_iff]
  simp only [groupList_not_gate, false_imp_iff, implies_true, true_and, Item.script.injEq,
    exists_eq', and_true, ← none]
  exact ⟨fun h list hl names k name hm => h list names k name hm hl,
    fun h list names k name hm hl => h list hl names k name hm⟩

end Entity

/-! ### What happens to a game -/

/-- The requires and effects of every entity are scripts. -/
def State.Gated (s : State) : Prop :=
  ∀ (name : String) (e : Entity), s.entities[name]? = some e → e.Gated

/-- The requires and effects of every entity are scripts, now and in every frame. -/
def Engine.Gated (g : Engine) : Prop := g.Always State.Gated

/-- A name gets into a gate. -/
inductive Misfiled (g : Engine) : Engine → Prop
  /-- An entity is added that has one there. -/
  | added {e h} : ¬ e.Gated → Mutation.insert e g = some (.ok (), h) → Misfiled g h
  /-- One is appended. -/
  | appended {name list text h} : list ∈ gateLists →
      Mutation.appendItem name list (.name text) g = some (.ok true, h) → Misfiled g h
  /-- A recruit joins a gate as a list of its owner. -/
  | enlisted {template location owner list name h} : list ∈ gateLists →
      Mutation.recruit template location (some owner) (some list) g = some (.ok (some name), h) →
        Misfiled g h

variable {g h : Engine}

theorem not_gated_append {e : Entity} {list : String} (hl : list ∈ gateLists) (text : String) :
    ¬ (e.append list [.name text]).Gated := fun he => by
  simpa using (Entity.gated_append_iff.1 he).2 hl

/-- The owner of a recruit got it last. -/
theorem Engine.exists_getElem?_joined (g : Engine) (e : Entity) (template : String) (n : UInt32)
    (location : Option Coord) (list : String) {owner : String} {k : Entity}
    (hk : g.entity? owner = some k) : ∃ before : Entity,
      (g.joined template e n location (some owner) list)[owner]? =
        some (before.append list [.name (recruitName template n)]) := by
  simp only [getElem?_joined, hk, if_true]
  split
  · exact ⟨_, rfl⟩
  · split <;> exact ⟨_, rfl⟩

/-- **A name that got into a gate is there.** -/
theorem Misfiled.not_gated (k : Misfiled g h) : ¬ h.Gated := by
  intro gated
  have now : h.state.Gated := gated h.state List.mem_cons_self
  cases k with
  | @added e _ he k =>
    obtain ⟨_, _, _, rfl⟩ := Mutation.insert_eq_ok_iff.1 k
    exact he (now e.name e Std.ExtTreeMap.getElem?_insert_self)
  | @appended name list text _ hl k =>
    obtain ⟨_, e, _, _, rfl⟩ := Mutation.appendItem_eq_ok_true_iff.1 k
    exact not_gated_append hl text (now name _ Std.ExtTreeMap.getElem?_insert_self)
  | @enlisted template location owner list name _ hl k =>
    obtain ⟨e, n, he, ho, _, _, rfl, rfl⟩ := Mutation.recruit_eq_ok_some_iff.1 k
    obtain ⟨_, k, hk, _⟩ := ho owner rfl
    obtain ⟨before, hb⟩ := g.exists_getElem?_joined e template n location list hk
    exact not_gated_append hl _ (now owner _ hb)

/-- An edit that appends no name to a gate keeps the gates. -/
theorem Entity.Edit.gated {s : Schema} {name : String} {e e' : Entity} (k : e.Edit s name e')
    (he : e.Gated) : e'.Gated ∨
      ∃ list ∈ gateLists, ∃ text, s.isList list ∧ e' = e.append list [.name text] := by
  cases k with
  | stat | string => exact .inl he
  | remove _ _ k => exact .inl (he.remove k)
  | @append list item declared =>
    by_cases hl : list ∈ gateLists
    · cases item with
      | name text => exact .inr ⟨list, hl, text, declared, rfl⟩
      | script s => exact .inl (gated_append_iff.2 ⟨he, fun _ => by simp⟩)
    · exact .inl (gated_append_iff.2 ⟨he, fun hl' => absurd hl' hl⟩)

/-- **What a change leaves behind keeps the gates, or it has misfiled a name.** -/
theorem Engine.Effect.gated_or_misfiled {adds : Entity → Prop} (k : g.Effect adds h)
    (hg : g.Gated) : h.Gated ∨ Misfiled g h := by
  have now : g.state.Gated := hg g.state List.mem_cons_self
  have kept : h.state.Gated → h.Gated := fun state => Always.of_state hg state k.keeps.frames
  cases k with
  | still | cached | rolled | logged => exact .inl (kept now)
  | @edited name e e' he hm edit =>
    rcases edit.gated (now name e he) with he' | ⟨list, hl, text, declared, rfl⟩
    · exact .inl (kept (forall_getElem?_insert now he'))
    · exact .inr (.appended hl (Mutation.appendItem_eq_ok_true_iff.2 ⟨declared, e, he, hm, rfl⟩))
  | @travelled name e goal he _ _ =>
    have moved : ({ e with location := goal } : Entity).Gated := now name e he
    exact .inl (kept (forall_getElem?_insert now moved))
  | @deleted name => exact .inl (kept (forall_getElem?_erase now name))
  | @recruited template e location owner list n he ho inside counts =>
    by_cases hl : owner.isSome ∧ list ∈ gateLists
    · obtain ⟨keeper, rfl⟩ := Option.isSome_iff_exists.1 hl.1
      have recruit : Mutation.recruit template location (some keeper) (some list) g =
          some (.ok (some (recruitName template n)), _) :=
        Mutation.recruit_eq_ok_some_iff.2 ⟨e, n, he, ho, inside, counts, rfl, rfl⟩
      exact .inr (.enlisted hl.2 recruit)
    · have counted : ({ e with recruited := n } : Entity).Gated := now template e he
      have recruited := counted.recruit (recruitName template n) location
      refine .inl (kept (forall_joined now counted recruited fun o ho k hk => ?_))
      refine Entity.gated_append_iff.2 ⟨hk, fun hl' => absurd ⟨?_, hl'⟩ hl⟩
      exact Option.isSome_of_mem ho
  | @inserted e _ free valid inside =>
    by_cases he : e.Gated
    · exact .inl (kept (forall_getElem?_insert now he))
    · exact .inr (.added he (Mutation.insert_eq_ok_iff.2 ⟨free, valid, inside, rfl⟩))

/-- One thing happens to a game: in a run, when a drain that failed puts back what it
held, or when someone rolls the game back. -/
inductive Happens : Engine → Engine → Prop
  | stroke {around a e b} : Stroke around a e b → Happens a.engine b.engine
  | requeued {rest g} : Happens g (Clock.requeue rest g)
  | reverted {g : Engine} (k : Nat) : Happens g (g.revert k).2
  | kept {g : Engine} (k : Nat) : Happens g (g.retrieve k).2
  | retrieved {g past : Engine} (k : Nat) : (g.retrieve k).1 = some past → Happens g past

/-- **Whatever happens keeps the gates, or it has misfiled a name.** -/
theorem Happens.gated_or_misfiled (k : Happens g h) (hg : g.Gated) : h.Gated ∨ Misfiled g h := by
  cases k with
  | stroke s =>
    cases s with
    | touch t => exact t.effect.gated_or_misfiled hg
    | tick =>
      have now : State.Gated _ := hg _ List.mem_cons_self
      exact .inl (Engine.Always.of_state (Engine.Always.record hg) now rfl)
    | schedule | age | take =>
      have now : State.Gated _ := hg _ List.mem_cons_self
      exact .inl (Engine.Always.of_state hg now rfl)
  | requeued =>
    have now : State.Gated _ := hg _ List.mem_cons_self
    exact .inl (Engine.Always.of_state hg now rfl)
  | reverted k => exact .inl (Engine.Always.revert hg k)
  | kept k => exact .inl (Engine.Always.retrieve hg k)
  | retrieved k hp => exact .inl (Engine.Always.retrieved hg hp)

/-- A mutation, a roll, a compiled text or an entry in the log happens. -/
theorem Happens.touch (t : Touch g h) : Happens g h :=
  .stroke (show Stroke [] ⟨[], g⟩ .touched ⟨[], h⟩ from .touch t)

/-- An operation is a row of what happens. -/
theorem Operates.happens (k : Operates g h) : ReflTransGen Happens g h :=
  k.preserves (P := ReflTransGen Happens g) (fun s a => a.tail (.stroke s))
    (fun a => a.tail .requeued) .refl

/-- **Every reachable engine is on a row of what happens from the start of a game.** -/
theorem Reachable.exists_row (k : Reachable h) : ∃ config registry start gs,
    Engine.start config registry = .ok start ∧ (start :: gs).IsChain Happens ∧ h ∈ start :: gs := by
  obtain ⟨config, registry, start, hs, happens⟩ : ∃ config registry start,
      Engine.start config registry = .ok start ∧ ReflTransGen Happens start h := by
    induction k with
    | start hs => exact ⟨_, _, _, hs, .refl⟩
    | operate op fuel _ k ih =>
      obtain ⟨config, registry, start, hs, before⟩ := ih
      exact ⟨config, registry, start, hs, before.trans (Operates.happens ⟨op, fuel, _, k⟩)⟩
    | revert k _ ih =>
      obtain ⟨config, registry, start, hs, before⟩ := ih
      exact ⟨config, registry, start, hs, before.tail (.reverted k)⟩
    | retrieve k _ ih =>
      obtain ⟨config, registry, start, hs, before⟩ := ih
      exact ⟨config, registry, start, hs, before.tail (.kept k)⟩
    | retrieved k _ hp ih =>
      obtain ⟨config, registry, start, hs, before⟩ := ih
      exact ⟨config, registry, start, hs, before.tail (.retrieved k hp)⟩
  obtain ⟨gs, row, last⟩ := List.exists_isChain_cons_of_relationReflTransGen happens
  exact ⟨config, registry, start, gs, hs, row, last ▸ List.getLast_mem _⟩

/-- Gates hold scripts only all along a row exactly if no name is misfiled on it. -/
theorem gated_row_iff {gs : List Engine} (hg : g.Gated) (row : (g :: gs).IsChain Happens) :
    (∀ h ∈ g :: gs, h.Gated) ↔ (g :: gs).IsChain fun a b => ¬ Misfiled a b := by
  induction gs generalizing g with
  | nil => simp [hg]
  | cons next gs ih =>
    obtain ⟨k, row⟩ := List.isChain_cons_cons.1 row
    rw [List.forall_mem_cons, List.isChain_cons_cons, and_iff_right hg]
    constructor
    · intro gated
      have here : next.Gated := gated next List.mem_cons_self
      exact ⟨fun misfiled => misfiled.not_gated here, (ih here row).1 gated⟩
    · rintro ⟨clear, rest⟩
      have here : next.Gated := (k.gated_or_misfiled hg).resolve_right clear
      exact (ih here row).2 rest

/-! ### Checks -/

/-- Entries are scripts exactly if those that are come to all of them. -/
theorem Item.map_script_eq_iff {items : List Item} :
    (items.filterMap (·.script?)).map .script = items ↔ ∀ item ∈ items, ∃ s, item = .script s := by
  constructor
  · intro same item hi
    rw [← same] at hi
    obtain ⟨s, _, rfl⟩ := List.mem_map.1 hi
    exact ⟨s, rfl⟩
  · intro scripts
    induction items with
    | nil => rfl
    | cons item items ih =>
      obtain ⟨⟨s, rfl⟩, rest⟩ := List.forall_mem_cons.1 scripts
      exact congrArg (.script s :: ·) (ih rest)

/-- What a move inherits for its gates is scripts, if every gate holds scripts only. -/
theorem Engine.Gated.inheritedList (hg : g.Gated) (name : String) {list : String}
    (hl : list ∈ gateLists) :
    Gives (fun items => ∀ item ∈ items, ∃ s, item = .script s) (g.inheritedList name list) := by
  have now : g.state.Gated := hg g.state List.mem_cons_self
  refine (visited_gives now name).bind fun es hes => .ok fun item hi => ?_
  obtain ⟨e, he, hi⟩ := List.mem_flatMap.1 hi
  exact hes e he list hl item hi

/-- A computation of a script that went on from a lookup. -/
theorem Scoped.ask_bind_eq_ok_iff {α β : Type} {f : Engine → Except Fault α} {k : α → Scoped β}
    {scope : Scope} {p : β × Scope} : ((Run.ask f : Scoped α) >>= k) scope g = some (.ok p, h) ↔
      ∃ a, f g = .ok a ∧ k a scope g = some (.ok p, h) := by
  have lifted : ((Run.ask f : Scoped α) >>= k) scope = Run.ask f >>= fun a => k a scope :=
    bind_assoc (Run.ask f) _ _
  rw [lifted, Run.ask_bind_eq_ok_iff]

/-- A computation of a script in a scope of its own. -/
theorem Scoped.within_eq_ok_iff {α : Type} {x : Scoped α} {scope : Scope} {a : α} :
    x.within scope g = some (.ok a, h) ↔ ∃ left, x scope g = some (.ok (a, left), h) := by
  unfold Scoped.within
  constructor
  · intro k
    obtain ⟨⟨_, left⟩, _, k, ke⟩ := Run.bind_eq_ok_iff.1 k
    cases ke
    exact ⟨left, k⟩
  · rintro ⟨left, k⟩
    exact Run.bind_eq_ok_iff.2 ⟨(a, left), h, k, rfl⟩

namespace Move

/-- Entries are run one after another, and each counts as true.  A name cannot be run. -/
inductive Heeds (run : Runner) : List Item → Scope → Engine → Scope → Engine → Prop
  | nil {scope : Scope} {g : Engine} : Heeds run [] scope g scope g
  | cons {s items v} {scope next left : Scope} {g m h : Engine} :
      run s scope g = some (.ok (v, next), m) → m.truth v = .ok true →
      Heeds run items next m left h → Heeds run (.script s :: items) scope g left h

variable {run : Runner} {scope left : Scope}

/-- Requires pass exactly if each of them does. -/
theorem requires_eq_passed_iff {ss : List Script} :
    requires run ss scope g = some (.ok (.passed, left), h) ↔
      Heeds run (ss.map .script) scope g left h := by
  induction ss generalizing scope g with
  | nil =>
    constructor
    · intro k
      cases k
      exact .nil
    · intro k
      cases k
      rfl
  | cons s ss ih =>
    constructor
    · intro k
      obtain ⟨⟨v, next⟩, m, kr, k⟩ := Run.bind_eq_ok_iff.1 k
      obtain ⟨counts, ht, k⟩ := Scoped.ask_bind_eq_ok_iff.1 k
      cases counts with
      | false => cases k
      | true => exact .cons kr ht (ih.1 k)
    · intro k
      cases k with
      | cons kr ht k =>
        refine Run.bind_eq_ok_iff.2 ⟨_, _, kr, ?_⟩
        exact Scoped.ask_bind_eq_ok_iff.2 ⟨true, ht, ih.2 k⟩

/-- The move that is being made is the one that is bound. -/
theorem mover_apply {name : String}
    (hn : scope.bindings.mover = some name) : mover scope g = some (.ok (name, scope), g) := by
  obtain ⟨⟨caster, target, bound⟩, storage⟩ := scope
  have here : bound = some name := hn
  rw [here]
  rfl

/-- **A check passes exactly if each script among the requires of the move does**; names
among them are passed over. -/
theorem check_eq_passed_iff {name : String} (hn : scope.bindings.mover = some name) :
    check run scope g = some (.ok (.passed, left), h) ↔
      ∃ items, g.inheritedList name requireList = .ok items ∧
        Heeds run ((items.filterMap (·.script?)).map .script) scope g left h := by
  have found : mover scope g = some (.ok (name, scope), g) := mover_apply hn
  constructor
  · intro k
    obtain ⟨_, m, km, k⟩ := Run.bind_eq_ok_iff.1 k
    rw [found] at km
    cases km
    obtain ⟨ss, hs, k⟩ := Scoped.ask_bind_eq_ok_iff.1 k
    obtain ⟨items, hi, hs⟩ := Except.bind_eq_ok_iff.1 hs
    cases hs
    exact ⟨items, hi, requires_eq_passed_iff.1 k⟩
  · rintro ⟨items, hi, k⟩
    have hs : g.inheritedScripts name requireList = .ok (items.filterMap (·.script?)) :=
      Except.bind_eq_ok_iff.2 ⟨items, hi, rfl⟩
    refine Run.bind_eq_ok_iff.2 ⟨(name, scope), g, found, ?_⟩
    exact Scoped.ask_bind_eq_ok_iff.2 ⟨_, hs, requires_eq_passed_iff.2 k⟩

end Move

/-- **Trying a choice passes exactly if its entities exist and each script among the
requires of the move passes**; names among them are passed over. -/
theorem Game.test_eq_passed_iff {fuel : Nat} {c : Choice} :
    Game.test fuel c g = some (.ok .passed, h) ↔
      (∀ name ∈ [c.caster, c.target, c.mover], g.contains name) ∧
        ∃ items left, g.inheritedList c.mover requireList = .ok items ∧
          Move.Heeds (runner fuel) ((items.filterMap (·.script?)).map .script)
            { bindings := .ofChoice c } g left h := by
  have there {name : String} : g.contains name = true ↔ ∃ e, g.entity name = .ok e := by
    simp only [Engine.entity_eq_ok_iff, Engine.contains, Engine.entity?,
      Std.ExtTreeMap.contains_eq_isSome_getElem?, Option.isSome_iff_exists]
  have mover : ({ bindings := .ofChoice c } : Scope).bindings.mover = some c.mover := rfl
  unfold test Move.test
  simp only [Run.ask_bind_eq_ok_iff, Scoped.within_eq_ok_iff, Move.check_eq_passed_iff mover,
    List.forall_mem_cons, there]
  constructor
  · rintro ⟨caster, hc, target, ht, move, hm, left, items, hi, k⟩
    exact ⟨⟨⟨caster, hc⟩, ⟨target, ht⟩, ⟨move, hm⟩, by simp⟩, items, left, hi, k⟩
  · rintro ⟨⟨⟨caster, hc⟩, ⟨target, ht⟩, ⟨move, hm⟩, _⟩, items, left, hi, k⟩
    exact ⟨caster, hc, target, ht, move, hm, left, items, hi, k⟩

/-! ### Gates that hold -/

/-- **Gates hold for as long as no name is misfiled.**  Along whatever happens to a
game from its start, the requires and effects of all entities are scripts, now and in
every frame, exactly if no entity is added with a name among them, none is appended
to them, and no recruit joins them.  While they are, a choice passes exactly if its
entities exist and every require that its move inherits is run and counts as true. -/
theorem gates_hold_iff {config : Config} {registry : Registry} {gs : List Engine}
    (start : Engine.start config registry = .ok g) (row : (g :: gs).IsChain Happens) :
    ((∀ h ∈ g :: gs, h.Gated) ↔ (g :: gs).IsChain fun a b => ¬ Misfiled a b) ∧
      ∀ h ∈ g :: gs, h.Gated → ∀ (fuel : Nat) (c : Choice) (m : Engine),
        Game.test fuel c h = some (.ok .passed, m) ↔
          (∀ name ∈ [c.caster, c.target, c.mover], h.contains name) ∧
            ∃ requires left, h.inheritedList c.mover requireList = .ok requires ∧
              Move.Heeds (runner fuel) requires { bindings := .ofChoice c } h left m := by
  have fresh : g.Gated := Engine.Always.start (fun name e he => by simp [State.start] at he) start
  refine ⟨gated_row_iff fresh row, fun h _ gated fuel c m => ?_⟩
  rw [Game.test_eq_passed_iff]
  have gate : requireList ∈ gateLists := by decide
  have scripts := gated.inheritedList c.mover gate
  refine and_congr_right fun _ => exists_congr fun items => exists_congr fun left =>
    and_congr_right fun hi => ?_
  rw [Item.map_script_eq_iff.2 (scripts items hi)]

/-- A door gets a text as an entry of what it requires. -/
theorem gates_hold_iff_door : ∃ start shut ajar : Engine,
    Engine.start {} {} = .ok start ∧ [start, shut, ajar].IsChain Happens ∧
      ¬ ∀ g ∈ [start, shut, ajar], g.Gated := by
  obtain ⟨start, hs⟩ : ∃ start, Engine.start {} {} = .ok start := ⟨_, rfl⟩
  obtain ⟨shut, insert⟩ : ∃ shut, Mutation.insert (.named "door") start = some (.ok (), shut) := by
    cases hs
    exact ⟨_, rfl⟩
  obtain ⟨ajar, append⟩ : ∃ ajar,
      Mutation.appendItem "door" requireList (.name "1 > 2") shut = some (.ok true, ajar) := by
    cases hs
    cases insert
    exact ⟨_, rfl⟩
  have added : Happens start shut := .touch (.insert insert)
  have appended : Happens shut ajar := .touch (.appendItem append)
  have row : [start, shut, ajar].IsChain Happens := by simp [added, appended]
  have misfiled : Misfiled shut ajar := .appended (by decide) append
  refine ⟨start, shut, ajar, hs, row, fun gated => ?_⟩
  have clear := (gates_hold_iff hs row).1.1 gated
  simp [misfiled] at clear

/-- **A name in a gate goes unnoticed.**  A door that is defined with the text `1 > 2` in
a list of the name `require`, and not as a require, lets everyone pass. -/
theorem gate_unheeded : ∃ g : Engine, Reachable g ∧
    (∃ e, g.entity? "door" = some e ∧ e.list requireList = [.name "1 > 2"]) ∧
      g.inheritedList "door" requireList = .ok [.name "1 > 2"] ∧
        ∀ fuel, Game.test fuel ⟨"hero", "hero", "door"⟩ g = some (.ok .passed, g) := by
  obtain ⟨start, hs⟩ : ∃ start, Engine.start {} .standard = .ok start := ⟨_, rfl⟩
  obtain ⟨g, loaded⟩ : ∃ g, Operation.run 0 (.loadAll [{ name := "hero" },
      { name := "door", lists := .ofList [("require", ["1 > 2"])] }]) start =
        some (.ok (), g) := by
    cases hs
    exact ⟨_, rfl⟩
  refine ⟨g, .operate _ 0 (.start hs) loaded, ?_⟩
  cases hs
  cases loaded
  exact ⟨⟨_, rfl, rfl⟩, rfl, fun _ => rfl⟩

end Tabletop
