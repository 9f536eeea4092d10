/-
# Membership: finding again what was appended

A value that is appended becomes an entry, and entries are read as values.  Names and
scripts come back as they were, up to whether a name is a reference; an integer becomes
the name that is its written form and comes back as a string, which is not the same as
the integer (`Item.same_toValue_iff`).

An entity is visited before everything it inherits from, so its own entries are among
those that a path to a list gives, if it gives any (`Engine.own_entries`).  Hence a value
that was appended is found in the list of its entity exactly if it is no integer
(`Engine.append_contains_iff`), though removing it again, which makes an entry of it just
as appending does, succeeds (`integer_not_found`).
-/

import Tabletop.Proofs.Search
import Tabletop.Proofs.Settled
import Tabletop.Proofs.Walk

namespace Tabletop

/-! ### Values and entries -/

namespace Item

/-- No entry is the same as an integer. -/
theorem same_int (item : Item) (n : Int) : item.toValue.same (.int n) = false := by
  cases item <;> rfl

/-- **The entry a value makes is the same as the value, unless that is an integer.** -/
theorem same_toValue_iff {v : Value} {item : Item} (h : ofValue v = .ok item) :
    item.toValue.same v = true ↔ ∀ n, v ≠ .int n := by
  cases v with
  | str text | ref text =>
    cases h
    simp [toValue, Value.same]
  | int n =>
    rw [same_int]
    simp
  | script s =>
    cases h
    have equal : (Value.script s).same (.script s) = (s.raw == s.raw) := rfl
    simp [toValue, equal]
  | none | bool | list | tuple => cases h

/-- A value that makes an entry means itself. -/
theorem resolve_of_ofValue {v : Value} {item : Item} (h : ofValue v = .ok item) (g : Engine) :
    g.resolve v = .ok v := by
  cases v with
  | str | ref | int | script =>
    refine (Engine.resolve_eq_self_iff _).2 fun items shown => ?_
    cases shown
  | none | bool | list | tuple => cases h

end Item

/-! ### Reading a list -/

namespace Engine

variable {g : Engine} {name list : String} {e : Entity}

/-- An entity is among those that a walk from it visits. -/
theorem mem_visited (he : g.entity? name = some e) :
    Gives (fun es => e ∈ es) (g.visited name) := by
  refine Gives.bind (P := fun es => e ∈ es) ?_ fun es hes => .ok (List.mem_reverse.2 hes)
  rw [walk, walkFrom_known (by simp) he]
  refine .foldlM (P := fun es => e ∈ es) List.mem_cons_self fun es parent hes => ?_
  exact walkFrom_gives (P := fun es => e ∈ es)
    (fun _ _ es _ hes => .ok (List.mem_cons_of_mem _ hes)) _ _ parent hes

/-- **A path to a list gives entries, those of the entity itself among them.** -/
theorem own_entries (he : g.entity? name = some e) (hl : g.schema.isList list) :
    Gives (fun w => ∃ entries : List Item, w = .list (entries.map (·.toValue)) ∧
      ∀ item ∈ e.list list, item ∈ entries) (g.stat name list) := by
  unfold stat
  split
  · next group =>
    subst group
    rw [entity_eq_ok_iff.2 he]
    exact .ok ⟨e.group, rfl, fun _ => id⟩
  · unfold Schema.isList at hl
    split at hl
    · next kind =>
      rw [kind]
      refine Gives.bind (P := fun entries => ∀ item ∈ e.list list, item ∈ entries) ?_
        fun entries own => .ok ⟨entries, rfl, own⟩
      exact (mem_visited he).bind fun es hes => .ok fun item hi => List.mem_flatMap.2 ⟨e, hes, hi⟩
    · cases hl

end Engine

/-! ### Calls -/

section Calls

variable {g h : Engine} {name list : String} {v : Value} {item : Item} {a : Arguments} {p : Powers}
  {scope : Scope}

/-- A computation without a scope leaves the scope. -/
theorem Scoped.lift_apply {α : Type} {x : Run α} {b : α} (e : x g = some (.ok b, h)) :
    (liftM x : Scoped α) scope g = some (.ok (b, scope), h) :=
  Run.bind_apply_ok e

theorem Engine.names_ref {e : Entity} (he : g.entity? name = some e) :
    g.names (.ref name) = .ok [name] := by
  have selector : g.selector (.ref name) = .ok (.entity name) := by
    rw [Engine.selector, Engine.resolve]
    · rfl
    all_goals simp
  rw [names, selector]
  show (do let _ ← g.entity name; return [name]) = _
  rw [entity_eq_ok_iff.2 he]
  rfl

/-- An edit of a list of one entity answers whether it changed the entity. -/
theorem Change.list_apply {edit : String → String → Item → Run Bool} {b : Bool}
    (names : g.names (a.get 0) = .ok [name]) (hl : (a.get 1).name? = some list)
    (hv : Item.ofValue (a.get 2) = .ok item) (k : edit name list item g = some (.ok b, h)) :
    Change.list a edit g = some (.ok (.bool b), h) := by
  unfold Change.list
  refine (Run.ask_bind_apply names).trans ?_
  refine (Run.ask_bind_apply (Engine.text_of_name? hl)).trans ?_
  refine (Run.ask_bind_apply (Item.resolve_of_ofValue hv g)).trans ?_
  refine (Run.ask_bind_apply hv).trans ?_
  unfold Change.each
  rw [Run.sweep_singleton]
  exact Run.bind_apply_ok k

/-- Whether a value is in what a path gives. -/
theorem Query.membership_apply {items : List Value} (hv : g.resolve (a.get 0) = .ok v)
    (found : g.resolve (a.get 1) = .ok (.list items)) :
    Query.membership g a = .ok (.bool (items.any fun item => item.same v)) := by
  rw [membership, hv]
  show (do let w ← g.resolve (a.get 1); _) = _
  rw [found]
  rfl

end Calls

/-- What a path of an entity and a category gives. -/
theorem Engine.resolve_path_of_name? {g : Engine} {name category : String} {v : Value}
    (hv : v.name? = some category) : g.resolve (.tuple [.ref name, v]) = g.stat name category := by
  have named : ∀ c ∈ [v], c.name?.isSome := List.forall_mem_singleton.2 (by rw [hv]; rfl)
  have step : g.follow (.ref name) v = g.stat name category := by
    rw [follow, hv]
    rfl
  rw [resolve_path (List.cons_ne_nil _ _) named]
  exact (bind_pure _).trans step

/-- **What was appended is found exactly if it is no integer.**  Appending a name, an
integer or a script to a list of a mutable entity answers true; right after it, if the
path to the list can be resolved, a query whether the value is in it answers, with true
unless the value is an integer. -/
theorem Engine.append_contains_iff {g : Engine} {name list : String} {e : Entity} {v l : Value}
    {item : Item} (he : g.entity? name = some e) (mutable : e.immutable = false)
    (listed : g.schema.isList list) (hv : Item.ofValue v = .ok item) (hl : l.name? = some list)
    (p : Powers) (scope : Scope) :
    ∃ h, Interpreter.call p (.change .listAdd) { positional := [.ref name, l, v] } scope g =
        some (.ok (.bool true, scope), h) ∧
      ∀ l' w, l'.name? = some list → h.resolve (.tuple [.ref name, l']) = .ok w →
        ∃ found, Interpreter.call p (.query .contains)
            { positional := [v, .tuple [.ref name, l']] } scope h =
              some (.ok (.bool found, scope), h) ∧
          (found = true ↔ ∀ n, v ≠ .int n) := by
  let e' := e.append list [item]
  let h := g.withTables (g.state.entities.insert name e') g.state.occupancy
  have appended : Mutation.appendItem name list item g = some (.ok true, h) :=
    Mutation.appendItem_eq_ok_true_iff.2 ⟨listed, e, he, mutable, rfl⟩
  have added : Change.list { positional := [.ref name, l, v] } Mutation.appendItem g =
      some (.ok (.bool true), h) :=
    Change.list_apply (names_ref he) hl hv appended
  refine ⟨h, Scoped.lift_apply added, fun l' w hl' hw => ?_⟩
  have there : h.entity? name = some e' := Std.ExtTreeMap.getElem?_insert_self
  have new : item ∈ e'.list list := by simp [e', Entity.list_append]
  have read : h.stat name list = .ok w := (resolve_path_of_name? hl').symm.trans hw
  obtain ⟨entries, rfl, own⟩ := own_entries there listed w read
  refine ⟨(entries.map (·.toValue)).any fun item => item.same v, ?_, ?_⟩
  · have answer : Query.contains.answer h scope { positional := [v, .tuple [.ref name, l']] } =
        .ok (.bool ((entries.map (·.toValue)).any fun item => item.same v)) :=
      Query.membership_apply (Item.resolve_of_ofValue hv h) hw
    rw [Interpreter.call_query, answer]
    rfl
  · rw [List.any_map, List.any_eq_true]
    constructor
    · rintro ⟨entry, _, same⟩ n rfl
      rw [Function.comp_apply, Item.same_int] at same
      cases same
    · exact fun other => ⟨item, own item new, (Item.same_toValue_iff hv).2 other⟩

/-- A game of one orc and a list of tags. -/
def tagGame : Engine :=
  let config : Config := { catalog := { lists := [{ name := "tags" }] } }
  { registry := {}
    config
    schema := (Schema.ofCatalog config.catalog).toOption.getD {}
    state := { entities := (∅ : Std.ExtTreeMap String Entity).insert "orc" (.named "orc")
               dice := { seed := 0 } }
    history := .ofList [] }

theorem reachable_tagGame : Reachable tagGame := by
  obtain ⟨s, hs⟩ : ∃ s,
      Engine.start { catalog := { lists := [{ name := "tags" }] } } {} = .ok s := ⟨_, rfl⟩
  have hg : Mutation.insert (.named "orc") s = some (.ok (), tagGame) := by
    cases hs
    rfl
  exact (Reachable.start hs).insert hg

/-- A tag that is appended as a string is found among the tags. -/
theorem append_contains_iff_tag : ∃ h : Engine,
    Interpreter.call (powers 0) (.change .listAdd)
      { positional := [.ref "orc", .ref "tags", .str "brave"] } {} tagGame =
        some (.ok (.bool true, {}), h) ∧
    Interpreter.call (powers 0) (.query .contains)
      { positional := [.str "brave", .tuple [.ref "orc", .ref "tags"]] } {} h =
        some (.ok (.bool true, {}), h) := by
  have he : tagGame.entity? "orc" = some (Entity.named "orc") := rfl
  obtain ⟨h, appended, finds⟩ := Engine.append_contains_iff (v := .str "brave") (l := .ref "tags")
    he rfl rfl rfl rfl (powers 0) {}
  have read : h.resolve (.tuple [.ref "orc", .ref "tags"]) = .ok (.list [.str "brave"]) := by
    cases appended
    rfl
  obtain ⟨found, contains, sought⟩ := finds (.ref "tags") _ rfl read
  rw [sought.2 fun _ k => nomatch k] at contains
  exact ⟨h, appended, contains⟩

/-- The integer 5 that is appended to the tags of an orc is not found among them, and yet it
can be removed. -/
theorem integer_not_found : ∃ h m : Engine, Reachable tagGame ∧
    Interpreter.call (powers 0) (.change .listAdd)
      { positional := [.ref "orc", .ref "tags", .int 5] } {} tagGame =
        some (.ok (.bool true, {}), h) ∧
    Interpreter.call (powers 0) (.query .contains)
      { positional := [.int 5, .tuple [.ref "orc", .ref "tags"]] } {} h =
        some (.ok (.bool false, {}), h) ∧
    Interpreter.call (powers 0) (.change .listRemove)
      { positional := [.ref "orc", .ref "tags", .int 5] } {} h =
        some (.ok (.bool true, {}), m) :=
  ⟨_, _, reachable_tagGame, rfl, rfl, rfl⟩

end Tabletop
