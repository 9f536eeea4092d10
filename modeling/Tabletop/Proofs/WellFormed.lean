/-
# Entities are well formed

Stored under a name, an entity is well formed (`Entity.WellFormed`) if the name
is its own, its groups start with it, and every category that it uses is
declared as what it is used for.

Not every record of an entity is.  But a player has no records, only entities
that were built up from a name and entities found in a game (`Made`), and gets
to the engines that these lead to (`Played`).  The two depend on each other, as
an entity of one game may be added to another.  Nothing that is done to an
entity displaces the head of its groups (`Entity.Leads`), and so everything a
player gets hold of is well formed, by one induction (`Played.wellFormed`).
-/

import Tabletop.Proofs.Entries
import Tabletop.Proofs.TimedCongruence

namespace Tabletop

/-! ### What is declared -/

/-- What holds of a name and of all names of a table holds of the names of the table
with the name. -/
theorem forall_mem_insert {α : Type} {t : Std.ExtTreeMap String α} {P : String → Prop}
    {name : String} (hn : P name) (h : ∀ other ∈ t, P other) (a : α) :
    ∀ other ∈ t.insert name a, P other := by
  intro other ho
  rcases Std.ExtTreeMap.mem_insert.1 ho with heq | ho
  · rw [← Std.compare_eq_iff_eq.1 heq]
    exact hn
  · exact h other ho

/-- What holds of a row and of all rows of a table holds of the rows of the table with
the row. -/
theorem forall_getElem?_insert {α : Type} {t : Std.ExtTreeMap String α} {P : String → α → Prop}
    (h : ∀ (name : String) (a : α), t[name]? = some a → P name a) {name : String} {a : α}
    (ha : P name a) :
    ∀ (other : String) (b : α), (t.insert name a)[other]? = some b → P other b := by
  intro other b hb
  rw [Std.ExtTreeMap.getElem?_insert] at hb
  split at hb
  · next heq =>
    cases hb
    rw [← Std.compare_eq_iff_eq.1 heq]
    exact ha
  · exact h other b hb

/-- What holds of all rows of a table holds of those that are left. -/
theorem forall_getElem?_erase {α : Type} {t : Std.ExtTreeMap String α} {P : String → α → Prop}
    (h : ∀ (name : String) (a : α), t[name]? = some a → P name a) (name : String) :
    ∀ (other : String) (b : α), (t.erase name)[other]? = some b → P other b := by
  intro other b hb
  rw [Std.ExtTreeMap.getElem?_erase] at hb
  split at hb
  · cases hb
  · exact h other b hb

/-- Every category an entity uses is declared as what it is used for. -/
structure Schema.Declares (s : Schema) (e : Entity) : Prop where
  stats : ∀ name ∈ e.stats, s.isStat name
  lists : ∀ name ∈ e.lists, s.isList name
  strings : ∀ name ∈ e.strings, s.isString name

/-- **The check accepts exactly the entities whose categories are declared.** -/
theorem Schema.validate_eq_ok_iff {s : Schema} {e : Entity} :
    s.validate e = .ok () ↔ s.Declares e := by
  have accepts : s.validate e = .ok () ↔ s.undeclared? e = none := by
    unfold validate
    split <;> simp_all
  have unfolded : s.undeclared? e = none ↔ (∀ name ∈ e.stats, s.isStat name) ∧
      (∀ name ∈ e.lists, s.isList name) ∧ ∀ name ∈ e.strings, s.isString name := by
    simp [undeclared?, Std.ExtTreeMap.mem_keys]
  rw [accepts, unfolded]
  constructor
  · rintro ⟨stats, lists, strings⟩
    exact ⟨stats, lists, strings⟩
  · intro h
    exact ⟨h.stats, h.lists, h.strings⟩

namespace Entity

variable {e e' : Entity} {s : Schema} {name : String}

/-! ### The head of the groups -/

/-- An entity whose groups start with its own name. -/
def Leads (e : Entity) : Prop := e.group.head? = some (.name e.name)

theorem leads_named (name : String) : (named name).Leads := by
  unfold Leads group named
  rw [list_append, if_pos rfl]
  simp [Entity.list, append]

theorem Leads.setStat (h : e.Leads) (stat : String) (value : Int) : (e.setStat stat value).Leads := h

theorem Leads.setString (h : e.Leads) (string value : String) :
    (e.setString string value).Leads := h

theorem Leads.put (h : e.Leads) (location : Option Coord) (immutable : Bool) :
    ({ e with location, immutable } : Entity).Leads := h

theorem Leads.append (h : e.Leads) (list : String) (items : List Item) :
    (e.append list items).Leads := by
  unfold Leads group at h ⊢
  rw [list_append]
  split
  · next heq => rw [heq, List.head?_append, h]; rfl
  · exact h

/-- Only its own name is equal to the head of an entity's groups. -/
theorem Leads.remove (h : e.Leads) {list : String} {item : Item}
    (keep : ¬(list = groupList ∧ item.name? = some e.name)) (k : e.remove? list item = some e') :
    e'.Leads := by
  have named : e'.name = e.name := by rw [remove?_eq_some k]
  unfold Leads group at h ⊢
  rw [list_remove? k, named]
  split
  · next heq =>
    subst heq
    obtain ⟨rest, hl⟩ := List.head?_eq_some_iff.1 h
    have other : (Item.name e.name == item) = false := by
      refine Bool.eq_false_iff.2 fun same => keep ⟨rfl, ?_⟩
      cases item with
      | name text =>
        have same : e.name = text := eq_of_beq (α := String) same
        rw [same]
        rfl
      | script s => cases same
    rw [hl, List.eraseP_cons_of_neg (by simp [other])]
    rfl
  · exact h

theorem Leads.recruit (h : e.Leads) (name : String) (location : Option Coord) :
    (e.recruit name location).Leads := by
  unfold Leads at h ⊢
  rw [group_recruit, List.head?_map, h]
  simp [Item.name?, Entity.recruit]

/-! ### Entities under their names -/

/-- An entity is fit to be stored under a name. -/
structure WellFormed (s : Schema) (name : String) (e : Entity) : Prop where
  named : e.name = name
  leads : e.Leads
  declares : s.Declares e

namespace WellFormed

theorem append (h : e.WellFormed s name) {list : String} (hl : s.isList list) (items : List Item) :
    (e.append list items).WellFormed s name where
  named := h.named
  leads := h.leads.append list items
  declares := { h.declares with lists := forall_mem_insert hl h.declares.lists _ }

theorem edit (h : e.WellFormed s name) (k : e.Edit s name e') : e'.WellFormed s name := by
  cases k with
  | @stat stat value hs =>
    have declares : s.Declares (e.setStat stat value) :=
      { h.declares with stats := forall_mem_insert hs h.declares.stats value }
    exact ⟨h.named, h.leads.setStat stat value, declares⟩
  | @string string value hs =>
    have declares : s.Declares (e.setString string value) :=
      { h.declares with strings := forall_mem_insert hs h.declares.strings value }
    exact ⟨h.named, h.leads.setString string value, declares⟩
  | append hl => exact h.append hl _
  | remove hl keep k =>
    have leads := h.leads.remove (by rwa [h.named]) k
    have declares : s.Declares e' := by
      rw [remove?_eq_some k]
      exact { h.declares with lists := forall_mem_insert hl h.declares.lists _ }
    have named : e'.name = name := by rw [remove?_eq_some k, h.named]
    exact ⟨named, leads, declares⟩

/-- A recruit is fit for its new name. -/
theorem recruit (h : e.WellFormed s name) (other : String) (location : Option Coord) :
    (e.recruit other location).WellFormed s other where
  named := rfl
  leads := h.leads.recruit other location
  declares :=
    { h.declares with
      lists := fun list hl => h.declares.lists list (Std.ExtTreeMap.mem_modify.1 hl) }

/-- The count of recruits is of no matter. -/
theorem counted (h : e.WellFormed s name) (n : UInt32) :
    ({ e with recruited := n } : Entity).WellFormed s name :=
  ⟨h.named, h.leads, ⟨h.declares.stats, h.declares.lists, h.declares.strings⟩⟩

/-- The location is of no matter. -/
theorem located (h : e.WellFormed s name) (goal : Option Coord) :
    ({ e with location := goal } : Entity).WellFormed s name :=
  ⟨h.named, h.leads, ⟨h.declares.stats, h.declares.lists, h.declares.strings⟩⟩

end WellFormed
end Entity

/-! ### Tables and engines -/

/-- Every entity of a state is well formed under its name. -/
def State.WellFormed (s : Schema) (state : State) : Prop :=
  ∀ (name : String) (e : Entity), state.entities[name]? = some e → e.WellFormed s name

namespace State.WellFormed

variable {s : Schema} {state : State} {name : String} {e : Entity}

/-- A well formed entity is stored. -/
theorem insert (h : state.WellFormed s) (he : e.WellFormed s name) (o : Occupancy) :
    { state with entities := state.entities.insert name e, occupancy := o }.WellFormed s :=
  forall_getElem?_insert h he

theorem erase (h : state.WellFormed s) (name : String) (o : Occupancy) :
    { state with entities := state.entities.erase name, occupancy := o }.WellFormed s :=
  forall_getElem?_erase h name

end State.WellFormed

namespace Engine

variable {g h : Engine} {adds : Entity → Prop}

/-- A template, its recruit and the owner who gets it are well formed. -/
theorem wellFormed_joined (hg : g.state.WellFormed g.schema) {template : String} {e : Entity}
    (he : g.entity? template = some e) {owner : Option String} {list : String}
    (declared : ∀ o ∈ owner, g.schema.isList list) (n : UInt32) (location : Option Coord)
    (o : Occupancy) :
    (g.withTables (g.joined template e n location owner list) o).state.WellFormed g.schema := by
  have template' := (hg template e he).counted n
  refine forall_joined hg template' (template'.recruit _ location) fun o ho k hk => ?_
  exact hk.append (declared o ho) _

/-- **What a change leaves behind is well formed**, if what may be added leads its
groups. -/
theorem Effect.wellFormed (k : g.Effect adds h) (leads : ∀ e, adds e → e.Leads)
    (hg : g.state.WellFormed g.schema) : h.state.WellFormed h.schema := by
  cases k with
  | still | cached | rolled | logged => exact hg
  | @edited name e _ he _ hk => exact hg.insert ((hg name e he).edit hk) _
  | @travelled name e goal he _ _ => exact hg.insert ((hg name e he).located goal) _
  | deleted => exact hg.erase _ _
  | recruited he ho _ _ => exact wellFormed_joined hg he (fun o h => (ho o h).1) _ _ _
  | @inserted e ha _ hv _ =>
    have added : e.WellFormed g.schema e.name := ⟨rfl, leads e ha, Schema.validate_eq_ok_iff.1 hv⟩
    exact hg.insert added _

/-- Every entity is well formed, now and in every frame. -/
def WellFormed (g : Engine) : Prop := ∀ s ∈ g.state :: g.frames, s.WellFormed g.schema

namespace WellFormed

theorem effect (hg : g.WellFormed) (k : g.Effect adds h) (leads : ∀ e, adds e → e.Leads) :
    h.WellFormed := by
  intro s hs
  rw [k.keeps.frames] at hs
  rcases List.mem_cons.1 hs with rfl | hs
  · exact k.wellFormed leads (hg g.state List.mem_cons_self)
  · rw [k.keeps.schema]
    exact hg s (List.mem_cons_of_mem _ hs)

/-- An engine of the same game is well formed, if its entities and frames are. -/
theorem of_entities_eq (hg : g.WellFormed) (schema : h.schema = g.schema)
    (entities : h.state.entities = g.state.entities) (frames : h.frames = g.frames) :
    h.WellFormed := by
  intro s hs
  rw [schema]
  rw [frames] at hs
  rcases List.mem_cons.1 hs with rfl | hs
  · intro name e he
    rw [entities] at he
    exact hg g.state List.mem_cons_self name e he
  · exact hg s (List.mem_cons_of_mem _ hs)

theorem record (hg : g.WellFormed) : g.record.WellFormed := Always.record hg

/-- Rolled back to a frame, or only with the newer frames dropped, an engine is well
formed. -/
theorem back (hg : g.WellFormed) {k : Nat} {frame : State} {frames : List State}
    (hf : g.frame? k = some (frame, frames)) {state : State} (hs : state = frame ∨ state = g.state) :
    ({ g with state, history := .ofList frames } : Engine).WellFormed := Always.back hg hf hs

/-- **Runs keep entities well formed.** -/
theorem timedCongruence : TimedCongruence fun x _ => Preserves WellFormed x := by
  refine Preserves.timedCongruence (fun k hg => ?_) (fun _ hg => ?_) record (fun hg => ?_)
  · exact hg.effect k.effect fun _ h => h.elim
  · exact hg.of_entities_eq rfl rfl rfl
  · exact hg.of_entities_eq rfl rfl rfl

end WellFormed
end Engine

/-- The entity of a definition leads its groups. -/
theorem Entity.leads_ofDefinition (d : Definition) (require effect : List Script) :
    (ofDefinition d require effect).Leads := by
  have fold {α : Type} {f : Entity → α → Entity} (as : List α) {e : Entity} (he : e.Leads)
      (hf : ∀ e a, e.Leads → (f e a).Leads) : (as.foldl f e).Leads := by
    induction as generalizing e with
    | nil => exact he
    | cons a as ih => exact ih (hf e a he)
  refine Leads.put ?_ d.location d.immutable
  refine fold effect ?_ fun _ s h => h.append effectList [.script s]
  refine fold require ?_ fun _ s h => h.append requireList [.script s]
  refine fold d.strings.toList ?_ fun _ (string, value) h => h.setString string value
  refine fold d.lists.toList ?_ fun _ (list, items) h => h.append list (items.map .name)
  refine fold d.stats.toList ?_ fun _ (stat, value) h => h.setStat stat value
  exact (leads_named d.name).append groupList (d.group.map .name)

/-- Adding an entity that leads its groups keeps entities well formed. -/
theorem Mutation.insert_preserves {e : Entity} (leads : e.Leads) :
    Preserves Engine.WellFormed (insert e) := by
  intro g r h k hg
  have added : g.Effect (· = e) h := Engine.effect_insert rfl k
  exact hg.effect added fun _ he => he ▸ leads

/-- **Operations keep entities well formed**, if an entity that is inserted leads its
groups. -/
theorem Operation.preserves_wellFormed (op : Operation) (fuel : Nat)
    (inserted : ∀ e, op = .insert e → e.Leads) : Preserves Engine.WellFormed (op.run fuel) := by
  have hR := Engine.WellFormed.timedCongruence
  refine op.run_related hR (hR.runs fuel) fun e he => Mutation.insert_preserves ?_
  cases op with
  | insert => exact inserted e (he ▸ rfl)
  | load d =>
    obtain ⟨require, effect, rfl⟩ := he
    exact Entity.leads_ofDefinition d require effect
  | loadAll ds =>
    obtain ⟨d, _, require, effect, rfl⟩ := he
    exact Entity.leads_ofDefinition d require effect
  | _ => exact he.elim

/-! ### What a player can get hold of -/

mutual

/-- The engines that a player gets to from the start of a game, adding only entities
at hand. -/
inductive Played : Engine → Prop
  | start {config registry g} : Engine.start config registry = .ok g → Played g
  | operate {g h r} (op : Operation) (fuel : Nat) : Played g → (∀ e, op = .insert e → Made e) →
      op.run fuel g = some (r, h) → Played h
  | revert {g} (k : Nat) : Played g → Played (g.revert k).2
  | retrieve {g} (k : Nat) : Played g → Played (g.retrieve k).2
  | retrieved {g past} (k : Nat) : Played g → (g.retrieve k).1 = some past → Played past

/-- The entities that a player has at hand: built up from a name, or found in an
engine. -/
inductive Made : Entity → Prop
  | named (name : String) : Made (.named name)
  | setStat {e} (stat : String) (value : Int) : Made e → Made (e.setStat stat value)
  | setString {e} (string value : String) : Made e → Made (e.setString string value)
  | append {e} (list : String) (items : List Item) : Made e → Made (e.append list items)
  | located {e} (location : Option Coord) : Made e → Made { e with location }
  | marked {e} (immutable : Bool) : Made e → Made { e with immutable }
  | found {g name e} : Played g → g.entity? name = some e → Made e

end

/-- Whoever plays only gets to reachable engines. -/
theorem Played.reachable {g : Engine} : Played g → Reachable g
  | .start hs => .start hs
  | .operate op fuel hg _ k => .operate op fuel hg.reachable k
  | .revert k hg => .revert k hg.reachable
  | .retrieve k hg => .retrieve k hg.reachable
  | .retrieved k hg hp => .retrieved k hg.reachable hp

mutual

/-- Every engine that is played is well formed. -/
theorem Played.wellFormed {g : Engine} : Played g → g.WellFormed
  | .start hs => by
    obtain ⟨schema, _, hs⟩ := Except.bind_eq_ok_iff.1 hs
    cases hs
    intro s hs name e he
    rcases List.mem_cons.1 hs with rfl | hs
    · simp [State.start] at he
    · cases List.mem_of_mem_take hs
  | .operate op fuel hg made k =>
    op.preserves_wellFormed fuel (fun e he => (made e he).leads) _ _ _ k hg.wellFormed
  | .revert (g := g) k hg => by
    have wellFormed := hg.wellFormed
    obtain same | ⟨frame, frames, hf, same⟩ := g.revert_cases k
    · rwa [same]
    · rw [same]
      exact wellFormed.back hf (.inl rfl)
  | .retrieve (g := g) k hg => by
    have wellFormed := hg.wellFormed
    obtain same | ⟨frame, frames, hf, same⟩ := g.retrieve_cases k
    · rwa [same]
    · rw [same]
      exact wellFormed.back hf (.inr rfl)
  | .retrieved k hg hp => by
    obtain ⟨frame, frames, hf, rfl⟩ := Engine.retrieve_eq_some hp
    exact hg.wellFormed.back hf (.inl rfl)

/-- Every entity at hand leads its groups. -/
theorem Made.leads {e : Entity} : Made e → e.Leads
  | .named name => Entity.leads_named name
  | .setStat stat value he => he.leads.setStat stat value
  | .setString string value he => he.leads.setString string value
  | .append list items he => he.leads.append list items
  | .located _ he => he.leads
  | .marked _ he => he.leads
  | .found hg he => (hg.wellFormed _ List.mem_cons_self _ _ he).leads

end

/-- **Every entity that is ever stored is well formed**, now and in every frame.  It
is stored under its own name, its groups start with that name, and every category
that it uses is declared as what it is used for. -/
theorem Played.entities_wellFormed {g : Engine} (h : Played g) :
    ∀ s ∈ g.state :: g.frames, ∀ (name : String) (e : Entity), s.entities[name]? = some e →
      e.name = name ∧ e.group.head? = some (.name name) ∧
        g.schema.validate e = .ok () ∧ g.schema.Declares e := by
  intro s hs name e he
  have wellFormed := h.wellFormed s hs name e he
  have leads : e.group.head? = some (.name name) := wellFormed.named ▸ wellFormed.leads
  have valid := Schema.validate_eq_ok_iff.2 wellFormed.declares
  exact ⟨wellFormed.named, leads, valid, wellFormed.declares⟩

/-- An orc asked to leave the group of orcs stays at the head of its groups. -/
theorem Played.entities_wellFormed_orc : ∃ (r : Except Fault Unit) (g h : Engine),
    Played g ∧ Operation.run 0 (.removeItem "orc" groupList (.name "orc")) g = some (r, h) ∧
      ∃ e, h.entity? "orc" = some e ∧ e.group.head? = some (.name "orc") := by
  obtain ⟨f, hf⟩ : ∃ f, Engine.start {} {} = .ok f := ⟨_, rfl⟩
  obtain ⟨r, g, hg⟩ : ∃ r g, Operation.run 0 (.insert (.named "orc")) f = some (r, g) := by
    cases hf
    exact ⟨_, _, rfl⟩
  obtain ⟨r', h, hh⟩ : ∃ r' h,
      Operation.run 0 (.removeItem "orc" groupList (.name "orc")) g = some (r', h) := by
    cases hf
    cases hg
    exact ⟨_, _, rfl⟩
  have played : Played g := (Played.start hf).operate _ 0 (fun e he => by cases he; exact .named _) hg
  have removed : Played h := played.operate _ 0 (fun e he => by cases he) hh
  obtain ⟨e, he⟩ : ∃ e, h.entity? "orc" = some e := by
    cases hf
    cases hg
    cases hh
    exact ⟨_, rfl⟩
  obtain ⟨_, leads, _⟩ := Played.entities_wellFormed removed h.state List.mem_cons_self "orc" e he
  exact ⟨r', g, h, played, hh, e, he, leads⟩

end Tabletop
