/-
# Entries: what the lists of an entity hold

An edit appends an entry to a list or takes one out; a recruit has the entries of
its template, but its own name in its groups where the template's stood; and the
entity of a definition has the entries it is given.  A property of entries, which
may depend on the list, therefore holds of every entry of an entity
(`Entity.Every`) if it held before and holds of what is new.
-/

import Tabletop.Proofs.Effect

namespace Tabletop
namespace Entity

variable {e e' : Entity}

/-- A list from which an entry is taken loses the first equal one; every other list
stays. -/
theorem list_remove? {list : String} {item : Item} (h : e.remove? list item = some e')
    (other : String) : e'.list other =
      if list = other then (e.list list).eraseP (· == item) else e.list other := by
  rw [remove?_eq_some h]
  simp only [Entity.list, Std.ExtTreeMap.getD_insert, Std.compare_eq_iff_eq]
  split <;> simp

/-- The groups of a recruit are those of its template, with its own name for the
template's. -/
theorem group_recruit (e : Entity) (name : String) (location : Option Coord) :
    (e.recruit name location).group =
      e.group.map fun item => if item.name? = some e.name then .name name else item := by
  simp only [group, recruit, Entity.list, Std.ExtTreeMap.getD_eq_getD_getElem?,
    Std.ExtTreeMap.getElem?_modify]
  cases e.lists[groupList]? <;> simp

/-- Only the groups of a recruit are not those of its template. -/
theorem list_recruit (e : Entity) (name : String) (location : Option Coord) {list : String}
    (h : groupList ≠ list) : (e.recruit name location).list list = e.list list := by
  rw [Entity.list, Entity.recruit, Std.ExtTreeMap.getD_eq_getD_getElem?,
    Std.ExtTreeMap.getElem?_modify, if_neg (by simpa using h),
    ← Std.ExtTreeMap.getD_eq_getD_getElem?]
  rfl

/-- Every entry of every list has a property. -/
def Every (P : String → Item → Prop) (e : Entity) : Prop :=
  ∀ list, ∀ item ∈ e.list list, P list item

variable {P : String → Item → Prop}

theorem every_append_iff {list : String} {items : List Item} :
    (e.append list items).Every P ↔ e.Every P ∧ ∀ item ∈ items, P list item := by
  have split (other : String) : (∀ item ∈ (e.append list items).list other, P other item) ↔
      (∀ item ∈ e.list other, P other item) ∧ (list = other → ∀ item ∈ items, P other item) := by
    rw [list_append]
    by_cases same : list = other
    · subst same
      simp [or_imp, forall_and]
    · simp [same]
  unfold Every
  simp only [split]
  constructor
  · exact fun h => ⟨fun other => (h other).1, (h list).2 rfl⟩
  · rintro ⟨old, new⟩ other
    exact ⟨old other, fun same => same ▸ new⟩

theorem Every.remove (h : e.Every P) {list : String} {item : Item}
    (k : e.remove? list item = some e') : e'.Every P := by
  intro other entry hm
  rw [list_remove? k] at hm
  split at hm
  · next same => exact h other entry (same ▸ List.mem_of_mem_eraseP hm)
  · exact h other entry hm

theorem Every.recruit (h : e.Every P) {name : String} (hn : P groupList (.name name))
    (location : Option Coord) : (e.recruit name location).Every P := by
  intro list item hi
  by_cases hl : groupList = list
  · subst hl
    change item ∈ (e.recruit name location).group at hi
    rw [group_recruit] at hi
    obtain ⟨before, hb, rfl⟩ := List.mem_map.1 hi
    split
    · exact hn
    · exact h groupList before hb
  · rw [list_recruit e name location hl] at hi
    exact h list item hi

theorem every_named_iff {name : String} : (named name).Every P ↔ P groupList (.name name) := by
  have empty : ({ name } : Entity).Every P := fun list item hi => by simp [Entity.list] at hi
  rw [named, every_append_iff, and_iff_right empty]
  simp

/-- What is put in one after another. -/
theorem every_foldl_iff {α : Type} {f : Entity → α → Entity} {Q : α → Prop}
    (hf : ∀ e a, (f e a).Every P ↔ e.Every P ∧ Q a) (as : List α) (e : Entity) :
    (as.foldl f e).Every P ↔ e.Every P ∧ ∀ a ∈ as, Q a := by
  induction as generalizing e with
  | nil => simp
  | cons a as ih => rw [List.foldl_cons, ih, hf, List.forall_mem_cons, and_assoc]

/-- **The entries of the entity of a definition** are its own name and the groups, the
entries given to its lists, which are names, and the scripts. -/
theorem every_ofDefinition_iff {d : Definition} {require effect : List Script} :
    (ofDefinition d require effect).Every P ↔
      P groupList (.name d.name) ∧ (∀ name ∈ d.group, P groupList (.name name)) ∧
        (∀ (list : String) (names : List String), d.lists[list]? = some names →
          ∀ name ∈ names, P list (.name name)) ∧
        (∀ s ∈ require, P requireList (.script s)) ∧ ∀ s ∈ effect, P effectList (.script s) := by
  have stays {α : Type} {f : Entity → α → Entity} (hf : ∀ e a, (f e a).Every P ↔ e.Every P)
      (as : List α) (e : Entity) : (as.foldl f e).Every P ↔ e.Every P := by
    simpa using every_foldl_iff (Q := fun _ => True) (fun e a => by simpa using hf e a) as e
  have scripts (list : String) (ss : List Script) (e : Entity) :
      (ss.foldl (fun e s => e.append list [.script s]) e).Every P ↔
        e.Every P ∧ ∀ s ∈ ss, P list (.script s) :=
    every_foldl_iff (fun e s => by simp [every_append_iff]) ss e
  have lists {f : Entity → String × List String → Entity}
      (hf : ∀ e p, f e p = e.append p.1 (p.2.map .name)) (e : Entity) :
      (d.lists.toList.foldl f e).Every P ↔ e.Every P ∧
        ∀ (list : String) (names : List String), d.lists[list]? = some names →
          ∀ name ∈ names, P list (.name name) := by
    rw [every_foldl_iff (Q := fun p => ∀ name ∈ p.2, P p.1 (.name name))
      fun e p => by simp [hf, every_append_iff]]
    simp only [Prod.forall, Std.ExtTreeMap.mem_toList_iff_getElem?_eq_some]
  have first : ((named d.name).append groupList (d.group.map .name)).Every P ↔
      P groupList (.name d.name) ∧ ∀ name ∈ d.group, P groupList (.name name) := by
    simp [every_append_iff, every_named_iff]
  unfold ofDefinition
  rw [← and_assoc, ← and_assoc, ← and_assoc, ← first]
  refine (scripts effectList effect _).trans (and_congr_left fun _ => ?_)
  refine (scripts requireList require _).trans (and_congr_left fun _ => ?_)
  refine (stays ?_ d.strings.toList _).trans ?_
  · exact fun _ _ => Iff.rfl
  refine (lists ?_ _).trans (and_congr_left fun _ => ?_)
  · exact fun _ _ => rfl
  refine stays ?_ d.stats.toList _
  exact fun _ _ => Iff.rfl

end Entity
end Tabletop
