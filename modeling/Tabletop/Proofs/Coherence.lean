/-
# The board and the entities agree

A location is kept twice: by the entity that stands there and by the index of
the board.  Tables agree (`Agree`) if every entity is stored under its own name
and the index gives every name the location of its entity, so that nobody
stands on the board who does not exist, and if nobody stands beyond the bounds.

Every effect is put together from three changes of the tables: an entity is
exchanged where it stands (`Agree.exchange`), one is stored and put at its
location (`Agree.settle`), and one is erased (`Agree.erase`).  Each keeps the
tables in agreement, so they agree in every reachable engine and in each of its
frames (`Reachable.tables_agree`), and selectors find exactly the entities that
are there.
-/

import Tabletop.Proofs.Effect
import Tabletop.Proofs.Occupancy
import Tabletop.Proofs.Reachable

namespace Tabletop

variable {config : Config} {entities : Std.ExtTreeMap String Entity} {o : Occupancy}

/-- Entities and board agree on who stands where, and nobody stands out of bounds. -/
structure Agree (config : Config) (entities : Std.ExtTreeMap String Entity) (o : Occupancy) :
    Prop where
  named : ∀ {name : String} {e : Entity}, entities[name]? = some e → e.name = name
  location : ∀ name : String, o.location name = entities[name]?.bind (·.location)
  consistent : o.Consistent
  inside : ∀ {name : String} {c : Coord}, o.location name = some c → config.InBounds c

namespace Agree

/-- The index gives an entity its own location. -/
theorem location_of_mem (h : Agree config entities o) {name : String} {e : Entity}
    (he : entities[name]? = some e) : o.location name = e.location := by
  rw [h.location, he]
  rfl

/-- Whoever stands somewhere exists. -/
theorem exists_of_location (h : Agree config entities o) {name : String} {c : Coord}
    (hc : o.location name = some c) : ∃ e, entities[name]? = some e ∧ e.location = some c := by
  rw [h.location, Option.bind_eq_some_iff] at hc
  exact hc

theorem empty (config : Config) : Agree config ∅ {} where
  named h := by simp at h
  location name := by simp [Occupancy.location]
  consistent := Occupancy.consistent_empty
  inside h := by simp [Occupancy.location] at h

/-- An entity is exchanged for one of the same name that stands where it stood. -/
theorem exchange (h : Agree config entities o) {name : String} {e e' : Entity}
    (he : entities[name]? = some e) (hn : e'.name = e.name) (hl : e'.location = e.location) :
    Agree config (entities.insert name e') o where
  named {other k} hk := by
    rw [Std.ExtTreeMap.getElem?_insert] at hk
    split at hk
    · next heq =>
      cases hk
      rw [hn, h.named he, Std.compare_eq_iff_eq.1 heq]
    · exact h.named hk
  location other := by
    rw [Std.ExtTreeMap.getElem?_insert]
    split
    · next heq =>
      rw [← Std.compare_eq_iff_eq.1 heq, h.location_of_mem he]
      exact hl.symm
    · exact h.location other
  consistent := h.consistent
  inside := h.inside

/-- An entity is stored under its name and put at its location, or off the board. -/
theorem settle (h : Agree config entities o) (e : Entity)
    (hb : ∀ c ∈ e.location, config.InBounds c) :
    Agree config (entities.insert e.name e) (o.move e.name e.location) where
  named {other k} hk := by
    rw [Std.ExtTreeMap.getElem?_insert] at hk
    split at hk
    · next heq =>
      cases hk
      exact Std.compare_eq_iff_eq.1 heq
    · exact h.named hk
  location other := by
    rw [Std.ExtTreeMap.getElem?_insert, Occupancy.location_move, h.location other]
    simp only [Std.compare_eq_iff_eq]
    split <;> rfl
  consistent := h.consistent.move e.name e.location
  inside {other c} hc := by
    rw [Occupancy.location_move] at hc
    split at hc
    · exact hb c hc
    · exact h.inside hc

/-- An entity is erased and taken off the board. -/
theorem erase (h : Agree config entities o) (name : String) :
    Agree config (entities.erase name) (o.remove name) where
  named {other k} hk := by
    rw [Std.ExtTreeMap.getElem?_erase] at hk
    split at hk
    · cases hk
    · exact h.named hk
  location other := by
    rw [Std.ExtTreeMap.getElem?_erase, Occupancy.location_remove, h.location other]
    simp only [Std.compare_eq_iff_eq]
    split <;> rfl
  consistent := h.consistent.remove name
  inside {other c} hc := by
    rw [Occupancy.location_remove] at hc
    split at hc
    · cases hc
    · exact h.inside hc

/-- A name that is free stands nowhere. -/
theorem location_of_free (h : Agree config entities o) {name : String}
    (hn : entities[name]? = none) : o.location name = none := by
  rw [h.location, hn]
  rfl

/-- An entity under a free name is stored and put at its location, if it has one. -/
theorem add (h : Agree config entities o) {name : String} {e : Entity} (hn : e.name = name)
    (free : entities[name]? = none) (hb : ∀ c ∈ e.location, config.InBounds c) :
    Agree config (entities.insert name e) (e.location.elim o (o.place name)) := by
  subst hn
  rw [Occupancy.elim_place_eq_move (h.location_of_free free)]
  exact h.settle e hb

/-- Giving an entity one more entry in a list leaves it where it is. -/
theorem modify_append (h : Agree config entities o) (name list : String) (items : List Item) :
    Agree config (entities.modify name (·.append list items)) o := by
  cases he : entities[name]? with
  | none =>
    have e : entities.modify name (·.append list items) = entities := by
      refine Std.ExtTreeMap.ext_getElem? fun other => ?_
      rw [Std.ExtTreeMap.getElem?_modify]
      split
      · next heq => rw [← Std.compare_eq_iff_eq.1 heq, he]; rfl
      · rfl
    rwa [e]
  | some k =>
    have e : entities.modify name (·.append list items) =
        entities.insert name (k.append list items) := by
      refine Std.ExtTreeMap.ext_getElem? fun other => ?_
      rw [Std.ExtTreeMap.getElem?_modify, Std.ExtTreeMap.getElem?_insert, he]
      rfl
    rw [e]
    exact h.exchange he rfl rfl

end Agree

/-! ### Engines -/

namespace Engine

/-- The tables of an engine agree, and so do those of its frames. -/
structure TablesAgree (g : Engine) : Prop where
  now : Agree g.config g.state.entities g.state.occupancy
  before : ∀ s ∈ g.frames, Agree g.config s.entities s.occupancy

variable {g h : Engine}

theorem Effect.agree {adds : Entity → Prop} (k : g.Effect adds h)
    (hg : Agree g.config g.state.entities g.state.occupancy) :
    Agree h.config h.state.entities h.state.occupancy := by
  cases k with
  | still | cached | rolled | logged => exact hg
  | edited he _ hk => exact hg.exchange he hk.name_eq hk.location_eq
  | @travelled name e goal he _ hb =>
    obtain rfl : e.name = name := hg.named he
    exact hg.settle { e with location := goal } hb
  | deleted => exact hg.erase _
  | @recruited template e location owner list n he _ hb counts =>
    have template' : Agree g.config (g.state.entities.insert template { e with recruited := n })
        g.state.occupancy := hg.exchange he rfl rfl
    have free : (g.state.entities.insert template { e with recruited := n })[
        recruitName template n]? = none := by
      have := counts.entity?_eq_none
      rw [Std.ExtTreeMap.getElem?_insert, if_neg, ← entity?, this]
      intro heq
      rw [← Std.compare_eq_iff_eq.1 heq, he] at this
      cases this
    have joined := template'.add
      (e := Entity.recruit { e with recruited := n } (recruitName template n) location) rfl free hb
    cases owner with
    | none => exact joined
    | some owner => exact joined.modify_append owner list _
  | inserted _ free _ hb => exact hg.add rfl free hb

namespace TablesAgree

theorem effect {adds : Entity → Prop} (hg : g.TablesAgree) (k : g.Effect adds h) :
    h.TablesAgree where
  now := k.agree hg.now
  before s hs := by
    rw [k.keeps.frames] at hs
    rw [k.keeps.config]
    exact hg.before s hs

/-- A recorded state is one more frame. -/
theorem record (hg : g.TablesAgree) : g.record.TablesAgree where
  now := hg.now
  before s hs := by
    rw [frames_record] at hs
    rcases List.mem_cons.1 (List.mem_of_mem_take hs) with rfl | hs
    · exact hg.now
    · exact hg.before s hs

/-- Whatever happens keeps the tables in agreement. -/
theorem stroke {around : List Delay} {a b : Moment} {e : Event} (k : Stroke around a e b)
    (ha : a.engine.TablesAgree) : b.engine.TablesAgree := by
  cases k with
  | touch t => exact ha.effect t.effect
  | tick => exact ⟨ha.record.now, ha.record.before⟩
  | schedule | age | take => exact ⟨ha.now, ha.before⟩

/-- Dropping the newer frames keeps the others. -/
theorem older (hg : g.TablesAgree) {k : Nat} {frame : State} {frames : List State}
    (hf : g.frame? k = some (frame, frames)) {s : State}
    (hs : s ∈ (History.ofList frames).frames g.config.revertDepth) :
    Agree g.config s.entities s.occupancy := by
  rw [History.frames_ofList] at hs
  exact hg.before s ((mem_frames_of_frame? hf).2 (List.mem_of_mem_take hs))

/-- The frame a game is rolled back to is one of its frames. -/
theorem frame (hg : g.TablesAgree) {k : Nat} {frame : State} {frames : List State}
    (hf : g.frame? k = some (frame, frames)) : Agree g.config frame.entities frame.occupancy :=
  hg.before frame (mem_frames_of_frame? hf).1

end TablesAgree

/-! ### Selectors -/

mutual

/-- Selectors only find names that exist. -/
theorem exists_of_mem_select (hg : Agree g.config g.state.entities g.state.occupancy) :
    ∀ {s : Selector} {names : List String}, g.select s = .ok names →
      ∀ name ∈ names, ∃ e, g.entity? name = some e
  | .nobody, _, k, _, hm => by
    cases k
    cases hm
  | .entity _, _, k, _, hm => by
    obtain ⟨e, he, k⟩ := Except.bind_eq_ok_iff.1 k
    cases k
    rw [List.mem_singleton.1 hm]
    exact ⟨e, entity_eq_ok_iff.1 he⟩
  | .standing _, _, k, _, hm => by
    obtain ⟨_, _, k⟩ := Except.bind_eq_ok_iff.1 k
    cases k
    obtain ⟨e, he, _⟩ := hg.exists_of_location (hg.consistent.mem_standing.1 hm)
    exact ⟨e, he⟩
  | .many _, _, k, name, hm => exists_of_mem_selectAll hg k name hm

theorem exists_of_mem_selectAll (hg : Agree g.config g.state.entities g.state.occupancy) :
    ∀ {ss : List Selector} {names : List String}, g.selectAll ss = .ok names →
      ∀ name ∈ names, ∃ e, g.entity? name = some e
  | [], _, k, _, hm => by
    cases k
    cases hm
  | _ :: _, _, k, name, hm => by
    obtain ⟨_, hs, k⟩ := Except.bind_eq_ok_iff.1 k
    obtain ⟨_, hss, k⟩ := Except.bind_eq_ok_iff.1 k
    cases k
    rcases List.mem_append.1 hm with hm | hm
    · exact exists_of_mem_select hg hs name hm
    · exact exists_of_mem_selectAll hg hss name hm

end

/-- On the board, a location selects those who stand there. -/
theorem select_standing {c : Coord} (hc : g.config.InBounds c) :
    g.select (.standing c) = .ok (g.state.occupancy.standing c) := by
  show (do g.checkBounds c; _) = _
  rw [checkBounds_eq_ok_iff.2 hc]
  rfl

/-- A location beyond the board is refused. -/
theorem select_standing_beyond {c : Coord} (hc : ¬ g.config.InBounds c) :
    g.select (.standing c) = .error (.undefined .location c.text) := by
  show (do g.checkBounds c; _) = _
  rw [checkBounds, if_neg hc]
  rfl

/-- The row of a location lists whose own location it is. -/
theorem mem_standing_iff (hg : Agree g.config g.state.entities g.state.occupancy) {name : String}
    {c : Coord} : name ∈ g.state.occupancy.standing c ↔
      ∃ e, g.entity? name = some e ∧ e.location = some c := by
  rw [hg.consistent.mem_standing]
  refine ⟨hg.exists_of_location, fun ⟨e, he, hl⟩ => ?_⟩
  rw [hg.location_of_mem he, hl]

end Engine

/-! ### Reachable engines -/

/-- The tables of a reachable engine agree. -/
theorem Reachable.agree {g : Engine} (h : Reachable g) : g.TablesAgree := by
  refine h.invariant ?_ Engine.TablesAgree.stroke (fun hg => ⟨hg.now, hg.before⟩) ?_ ?_
  · intro config registry g hs
    obtain ⟨schema, _, hs⟩ := Except.bind_eq_ok_iff.1 hs
    cases hs
    exact ⟨.empty config, fun s hs => nomatch List.mem_of_mem_take hs⟩
  · exact fun hf hg => ⟨hg.now, fun _ => hg.older hf⟩
  · exact fun hf hg => ⟨hg.frame hf, fun _ => hg.older hf⟩

/-- **Entities and board agree in every reachable engine.**  Now and in every
frame, the index gives an entity the location it has itself, which is on the
board, and holds no other name.  A selector finds only entities that exist, and
a location finds those whose own location it is, each once. -/
theorem Reachable.tables_agree {g : Engine} (h : Reachable g) :
    (∀ s ∈ g.state :: g.frames,
      (∀ (name : String) e, s.entities[name]? = some e → e.name = name ∧
        e.location = s.occupancy.location e.name ∧ ∀ c ∈ e.location, g.config.InBounds c) ∧
      ∀ name, s.occupancy.contains name ∨ (∃ c, name ∈ s.occupancy.standing c) →
        s.entities.contains name) ∧
    (∀ s names, g.select s = .ok names → ∀ name ∈ names, ∃ e, g.entity? name = some e) ∧
    (∀ c, g.config.InBounds c → ∃ names, g.select (.standing c) = .ok names ∧ names.Nodup ∧
      ∀ name, name ∈ names ↔ ∃ e, g.entity? name = some e ∧ e.location = some c) ∧
    ∀ c, ¬ g.config.InBounds c → g.select (.standing c) = .error (.undefined .location c.text) ∧
      ¬ ∃ name e, g.entity? name = some e ∧ e.location = some c := by
  have hg := h.agree
  refine ⟨fun s hs => ?_, fun s names k => Engine.exists_of_mem_select hg.now k, fun c hc => ?_,
    fun c hc => ⟨Engine.select_standing_beyond hc, ?_⟩⟩
  · have agree : Agree g.config s.entities s.occupancy := by
      rcases List.mem_cons.1 hs with rfl | hs
      · exact hg.now
      · exact hg.before s hs
    refine ⟨fun name e he => ?_, fun name hn => ?_⟩
    · have hl := agree.location_of_mem he
      rw [agree.named he]
      exact ⟨rfl, hl.symm, fun c hc => agree.inside (hl.trans hc)⟩
    · rw [Occupancy.contains_iff] at hn
      simp only [agree.consistent.mem_standing, or_self] at hn
      obtain ⟨c, hc⟩ := hn
      obtain ⟨e, he, _⟩ := agree.exists_of_location hc
      rw [Std.ExtTreeMap.contains_eq_isSome_getElem?, he]
      rfl
  · exact ⟨_, Engine.select_standing hc, hg.now.consistent.nodup c, fun name =>
      Engine.mem_standing_iff hg.now⟩
  · rintro ⟨name, e, he, hl⟩
    exact hc (hg.now.inside ((hg.now.location_of_mem he).trans hl))

/-- An orc that is added stands where it says. -/
theorem Reachable.tables_agree_added : ∃ g, Reachable g ∧
    ∃ names, g.select (.standing (.flat 1 2)) = .ok names ∧ names.Nodup ∧ "orc" ∈ names := by
  obtain ⟨g, hg⟩ : ∃ g, Engine.start {} {} = .ok g := ⟨_, rfl⟩
  obtain ⟨h, hh⟩ : ∃ h, Mutation.insert { name := "orc", location := some (.flat 1 2) } g =
      some (.ok (), h) := by
    cases hg
    exact ⟨_, rfl⟩
  have hr : Reachable h := (Reachable.start hg).insert hh
  have hc : h.config.InBounds (.flat 1 2) := by
    cases hg
    cases hh
    decide
  obtain ⟨names, hs, hn, hm⟩ := (Reachable.tables_agree hr).2.2.1 (.flat 1 2) hc
  refine ⟨h, hr, names, hs, hn, (hm "orc").2 ?_⟩
  cases hg
  cases hh
  exact ⟨_, rfl, rfl⟩

end Tabletop
