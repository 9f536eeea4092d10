/-
# Effects: what a change leaves behind

A mutation leaves one of few effects behind (`Effect`), whether it succeeds, is
refused or fails: an entity is edited, travels, is deleted, recruited or added,
or everything is as before.  So do the dice, the log and the compiled texts.
Each effect is given with the engine it leaves and with everything that was
checked before, so that a law of changes is a case distinction over effects.
Which entities may be added is a parameter: an effect that may add none is one
that scripts can have.
-/

import Tabletop.Play.Interpreter
import Tabletop.Proofs.Mutation
import Tabletop.Proofs.Occupancy

namespace Tabletop

/-- A computation that went on to a result. -/
theorem Except.bind_eq_ok_iff {ε α β : Type} {x : Except ε α} {f : α → Except ε β} {b : β} :
    x >>= f = .ok b ↔ ∃ a, x = .ok a ∧ f a = .ok b := by
  cases x with
  | error e => exact ⟨fun h => (nomatch h), fun ⟨_, h, _⟩ => nomatch h⟩
  | ok a => exact ⟨fun h => ⟨a, rfl, h⟩, fun ⟨_, h, h'⟩ => by cases h; exact h'⟩

/-- Taking an entry out of a list changes that list only. -/
theorem Entity.remove?_eq_some {e e' : Entity} {list : String} {item : Item}
    (h : e.remove? list item = some e') : e' = { e with
      lists := e.lists.insert list (.ofList ((e.list list).eraseP (· == item))) } := by
  unfold remove? at h
  split at h
  · cases h
    rfl
  · cases h

/-- How an entity stored under a name changes without moving. -/
inductive Entity.Edit (s : Schema) (name : String) (e : Entity) : Entity → Prop
  | stat {stat value} : s.isStat stat → Integer.InRange value → Edit s name e (e.setStat stat value)
  | string {string value} : s.isString string → Edit s name e (e.setString string value)
  | append {list item} : s.isList list → Edit s name e (e.append list [item])
  | remove {list item e'} : s.isList list → ¬(list = groupList ∧ item.name? = some name) →
      e.remove? list item = some e' → Edit s name e e'

theorem Entity.Edit.name_eq {s : Schema} {name : String} {e e' : Entity} (h : e.Edit s name e') :
    e'.name = e.name := by
  cases h with
  | remove _ _ k => rw [remove?_eq_some k]
  | _ => rfl

theorem Entity.Edit.location_eq {s : Schema} {name : String} {e e' : Entity}
    (h : e.Edit s name e') : e'.location = e.location := by
  cases h with
  | remove _ _ k => rw [remove?_eq_some k]
  | _ => rfl

namespace Engine

/-- What a mutation, a roll, an entry of the log or a compiled text leaves behind, where
only some entities may be added. -/
inductive Effect (g : Engine) (adds : Entity → Prop) : Engine → Prop
  | still : Effect g adds g
  | cached (cache : Std.ExtTreeMap String Script) : Effect g adds { g with cache }
  | edited {name e e'} : g.entity? name = some e → e.immutable = false →
      e.Edit g.schema name e' →
      Effect g adds (g.withTables (g.state.entities.insert name e') g.state.occupancy)
  | travelled {name e goal} : g.entity? name = some e → e.immutable = false →
      (∀ c ∈ goal, g.config.InBounds c) →
      Effect g adds (g.withTables (g.state.entities.insert name { e with location := goal })
        (g.state.occupancy.move name goal))
  | deleted {name e} : g.entity? name = some e → e.immutable = false →
      Effect g adds (g.withTables (g.state.entities.erase name) (g.state.occupancy.remove name))
  | recruited {template e location owner list n} : g.entity? template = some e →
      (∀ o ∈ owner, g.schema.isList list ∧ ∃ k, g.entity? o = some k ∧ k.immutable = false) →
      (∀ c ∈ location, g.config.InBounds c) →
      Mutation.CountsTo (Mutation.Taken g template) e.recruited n →
      Effect g adds (g.withTables (g.joined template e n location owner list)
        (location.elim g.state.occupancy (g.state.occupancy.place (recruitName template n))))
  | inserted {e : Entity} : adds e → g.entity? e.name = none → g.schema.validate e = .ok () →
      (∀ c ∈ e.location, g.config.InBounds c) →
      Effect g adds (g.withTables (g.state.entities.insert e.name e)
        (e.location.elim g.state.occupancy (g.state.occupancy.place e.name)))
  | rolled (dice : Dice) : Effect g adds { g with state := { g.state with dice } }
  | logged (c : Choice) : Effect g adds (Move.log c g)

variable {g h : Engine} {adds : Entity → Prop}

/-- What a mutation that ended left behind is what it changed, if it changed anything. -/
theorem effect_of_ending {α : Type} {changes : α → Engine → Prop} {idle : α → Prop} {stuck : Prop}
    {r : Except Fault α} (k : Mutation.Ending g changes idle stuck (some (r, h)))
    (changed : ∀ {a}, changes a h → Effect g adds h) : Effect g adds h := by
  cases k with
  | changed changes => exact changed changes
  | idle | failed => exact .still

section Mutations

variable {name : String} {r : Except Fault Bool}

theorem effect_edit {category : String} {declared : Schema → String → Bool}
    {change : Entity → Except Fault (Option Entity)}
    (hc : ∀ {e e'}, declared g.schema category → change e = .ok (some e') →
      e.Edit g.schema name e')
    (k : Mutation.edit name category declared change g = some (r, h)) : Effect g adds h := by
  refine effect_of_ending (k ▸ Mutation.edit_ending g name category declared change) ?_
  rintro _ ⟨_, kind, e, e', he, hi, hch, rfl⟩
  exact .edited he hi (hc kind hch)

theorem effect_changeStat {stat : String} {change : StatChange}
    (k : Mutation.changeStat name stat change g = some (r, h)) : Effect g adds h := by
  refine effect_edit (fun {e e'} kind hch => ?_) k
  split at hch
  · next value hv =>
    cases hch
    obtain ⟨hr, rfl⟩ := Integer.checked_eq_some_iff.1 hv
    exact .stat kind hr
  · cases hch

theorem effect_setString {string value : String}
    (k : Mutation.setString name string value g = some (r, h)) : Effect g adds h :=
  effect_edit (fun kind hch => by cases hch; exact .string kind) k

theorem effect_appendItem {list : String} {item : Item}
    (k : Mutation.appendItem name list item g = some (r, h)) : Effect g adds h :=
  effect_edit (fun kind hch => by cases hch; exact .append kind) k

theorem effect_removeItem {list : String} {item : Item}
    (k : Mutation.removeItem name list item g = some (r, h)) : Effect g adds h := by
  refine effect_edit (fun {e e'} kind hch => ?_) k
  split at hch
  · cases hch
  · next hg => exact .remove kind hg (Except.ok.inj hch)

theorem effect_travel {goal : Option Coord} (k : Mutation.travel name goal g = some (r, h)) :
    Effect g adds h := by
  refine effect_of_ending (k ▸ Mutation.travel_ending g name goal) ?_
  rintro _ ⟨_, e, he, hi, inside, rfl⟩
  exact .travelled he hi inside

theorem effect_delete (k : Mutation.delete name g = some (r, h)) : Effect g adds h := by
  refine effect_of_ending (k ▸ Mutation.delete_ending g name) ?_
  rintro _ ⟨_, e, he, hi, rfl⟩
  exact .deleted he hi

theorem effect_recruit {template : String} {location : Option Coord} {owner list : Option String}
    {r : Except Fault (Option String)}
    (k : Mutation.recruit template location owner list g = some (r, h)) : Effect g adds h := by
  refine effect_of_ending (k ▸ Mutation.recruit_ending g template location owner list) ?_
  rintro _ ⟨e, n, he, howner, inside, counts, _, rfl⟩
  exact .recruited he howner inside counts

theorem effect_insert {e : Entity} {r : Except Fault Unit} (ha : adds e)
    (k : Mutation.insert e g = some (r, h)) : Effect g adds h := by
  refine effect_of_ending (k ▸ Mutation.insert_ending g e) ?_
  rintro _ ⟨free, valid, inside, rfl⟩
  exact .inserted ha free valid inside

end Mutations

theorem effect_compile {raw : String} {s : Script} (k : g.compile raw = .ok (s, h)) :
    Effect g adds h := by
  unfold compile at k
  split at k
  · cases k; exact .still
  · split at k
    · cases k
    · cases k; exact .cached _

theorem effect_roll {low high n : Int} (k : g.roll low high = .ok (n, h)) : Effect g adds h := by
  unfold roll at k
  split at k
  · cases k; exact .rolled _
  · cases k

end Engine

/-- What no effect touches: what the game fixes, the clock, the queue and the history. -/
structure Engine.Keeps (g h : Engine) : Prop where
  registry : h.registry = g.registry
  config : h.config = g.config
  schema : h.schema = g.schema
  time : h.state.time = g.state.time
  delays : h.state.delays = g.state.delays
  history : h.history = g.history

theorem Engine.Effect.keeps {g h : Engine} {adds : Entity → Prop} (k : g.Effect adds h) :
    g.Keeps h := by
  cases k <;> exact ⟨rfl, rfl, rfl, rfl, rfl, rfl⟩

theorem Engine.Keeps.frames {g h : Engine} (k : g.Keeps h) : h.frames = g.frames := by
  rw [Engine.frames, Engine.frames, k.history, k.config]

end Tabletop
