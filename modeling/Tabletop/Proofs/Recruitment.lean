/-
# Recruitment: fresh names and faithful copies

A recruit is named after its template and a number: the least one above the
template's count whose name is free (`Engine.isLeast_of_not_overflows`).  The template
counts up to that number, and the recruit is a copy of it under the new name
(`Entity.Copies`); of everyone else, only the owner's list changes, which gains the
name at its end (`Engine.enlisted_joined`).

The count of a template never falls as long as the template is there and does not
overflow (`Onward.counted`), whatever else happens, be it recruited, edited or its
recruits deleted.  As the number can be read off a name, a name that was given once is
not given again (`Engine.recruit_fresh`).  All that holds of recruits at any moment, also
of those that a tick rule or a callback makes.
-/

import Tabletop.Proofs.Coherence
import Tabletop.Proofs.Counting
import Tabletop.Proofs.Entries

namespace Tabletop

open Relation (ReflTransGen)

/-! ### Copies -/

namespace Entity

/-- An entity is the copy of another under a new name, at a location: mutable, with no
recruits of its own, and with its name in its groups where the other's name stood. -/
structure Copies (e : Entity) (name : String) (location : Option Coord) (copy : Entity) : Prop where
  name_eq : copy.name = name
  location_eq : copy.location = location
  mutable : copy.immutable = false
  unrecruiting : copy.recruited = 0
  stats_eq : copy.stats = e.stats
  strings_eq : copy.strings = e.strings
  lists_eq : ∀ list : String, copy.lists[list]?.map (·.toList) =
    e.lists[list]?.map fun entries =>
      if list = groupList then
        entries.toList.map fun item => if item.name? = some e.name then .name name else item
      else entries.toList

/-- A template makes its copies after it counted them. -/
theorem copies_recruit (e : Entity) (n : UInt32) (name : String) (location : Option Coord) :
    e.Copies name location (({ e with recruited := n } : Entity).recruit name location) where
  name_eq := rfl
  location_eq := rfl
  mutable := rfl
  unrecruiting := rfl
  stats_eq := rfl
  strings_eq := rfl
  lists_eq list := by
    simp only [recruit, Std.ExtTreeMap.getElem?_modify, Std.compare_eq_iff_eq,
      eq_comm (a := groupList)]
    split
    · next h =>
      subst h
      cases e.lists[groupList]? <;> simp
    · rfl

end Entity

/-! ### Joining -/

namespace Engine

variable {g h : Engine} {template : String}

section AfterRecruit

variable {n : UInt32} {owner : Option String} {list name : String} {k : Entity}

/-- An owner's list gains the recruit at its end, and nothing else is listed anew. -/
theorem list_afterRecruit (other : String) :
    (afterRecruit template n owner list name k).list other =
      if owner = some name ∧ list = other then
        k.list other ++ [.name (recruitName template n)] else k.list other := by
  have kept : (if template = name then { k with recruited := n } else k).list = k.list := by
    split <;> rfl
  by_cases ho : owner = some name
  · by_cases hl : list = other <;> simp [afterRecruit, ho, hl, Entity.list_append, kept]
  · simp [afterRecruit, ho, kept]

end AfterRecruit

/-- What is left behind when a recruit of a template, with a number, joined a list of its
owner. -/
structure Enlisted (g h : Engine) (template : String) (e : Entity) (n : UInt32)
    (location : Option Coord) (owner : Option String) (list : String) : Prop where
  counted : ∃ t, h.entity? template = some t ∧ t.recruited = n
  copied : ∃ r, h.entity? (recruitName template n) = some r ∧
    e.Copies (recruitName template n) location r
  /-- If it is given no place, it has none but what the board had for its name. -/
  placed : h.state.occupancy.location (recruitName template n) =
    location.or (g.state.occupancy.location (recruitName template n))
  owned : ∀ o ∈ owner, ∃ k k', g.entity? o = some k ∧ h.entity? o = some k' ∧
    k'.list list = k.list list ++ [.name (recruitName template n)]
  /-- Nothing else changes: not the template nor the owner in any other respect, and nobody
  else. -/
  others : ∀ other, other ≠ recruitName template n →
    h.entity? other = (g.entity? other).map (afterRecruit template n owner list other)

/-- Someone who is recruited joins as a copy of the template, under the name of the
number if that is free. -/
theorem enlisted_joined {e : Entity} {n : UInt32} {location : Option Coord}
    {owner : Option String} {list : String} (he : g.entity? template = some e)
    (howner : ∀ o ∈ owner, ∃ k, g.entity? o = some k)
    (free : g.entity? (recruitName template n) = none) :
    g.Enlisted (g.withTables (g.joined template e n location owner list)
      (location.elim g.state.occupancy (g.state.occupancy.place (recruitName template n))))
      template e n location owner list := by
  have ne {name : String} {k : Entity} (hk : g.entity? name = some k) :
      name ≠ recruitName template n := by
    rintro rfl
    rw [free] at hk
    cases hk
  have before {name : String} {k : Entity} (hk : g.entity? name = some k) :
      (g.joined template e n location owner list)[name]? =
        some (afterRecruit template n owner list name k) := by
    rw [getElem?_joined_of_ne he location (ne hk), hk, Option.map_some]
  -- The copy is made before the owner lists it, who may be the template but is not the copy.
  have notOwner : owner ≠ some (recruitName template n) := by
    intro ho
    obtain ⟨k, hk⟩ := howner _ ho
    exact ne hk rfl
  refine
    { counted := ⟨_, before he, by rw [recruited_afterRecruit, if_pos rfl]⟩
      copied := ⟨_, (getElem?_joined ..).trans ?_, e.copies_recruit n _ location⟩
      placed := ?_
      owned := fun o ho => ?_
      others := fun other hn => getElem?_joined_of_ne he location hn }
  · rw [if_pos rfl, Option.map_some, if_neg notOwner]
  · show (location.elim g.state.occupancy _).location _ = _
    cases location with
    | none => rfl
    | some c => exact (Occupancy.location_place ..).trans (if_pos rfl)
  · obtain ⟨k, hk⟩ := howner o ho
    exact ⟨k, _, hk, before hk, by rw [list_afterRecruit, if_pos ⟨ho, rfl⟩]⟩

end Engine

/-! ### Recruits -/

variable {g h : Engine} {template : String}

/-- **Recruits have fresh names and are faithful copies**, at any moment at which the
template does not overflow.  The name is the template's with the least number above its
count whose name is free; the template counts up to that number; the recruit is a copy of
it under its name, at its location; and the list of an owner gains exactly this name at its
end.  Where entities and board agree, the template carries its own name and the recruit
stands at its location.  As long as the game is not rolled back and the template is there
and does not overflow, no other recruit of it gets the name again, also if this one is
deleted. -/
theorem Engine.recruit_fresh {location : Option Coord} {owner list : Option String} {name : String}
    (k : Mutation.recruit template location owner list g = some (.ok (some name), h))
    (below : ¬ g.Overflows template h) :
    ∃ e n, g.entity? template = some e ∧
      name = template ++ "_" ++ Integer.digits n.toNat ∧
      IsLeast {m : UInt32 | e.recruited < m ∧
        g.entity? (template ++ "_" ++ Integer.digits m.toNat) = none} n ∧
      g.Enlisted h template e n location owner (list.getD unitsList) ∧
      (Agree g.config g.state.entities g.state.occupancy →
        e.name = template ∧ h.state.occupancy.location name = location) ∧
      ∀ (c d : Engine) (location' : Option Coord) (owner' list' : Option String) (later : String),
        ReflTransGen (OnwardWith template) h c →
          Mutation.recruit template location' owner' list' c = some (.ok (some later), d) →
            ¬ c.Overflows template d → later ≠ name := by
  obtain ⟨e, n, he, howner, _, counts, rfl, rfl⟩ := Mutation.recruit_eq_ok_some_iff.1 k
  have least := isLeast_of_not_overflows k below he counts
  have enlisted : g.Enlisted _ template e n location owner (list.getD unitsList) :=
    enlisted_joined he (Mutation.exists_owner howner) counts.entity?_eq_none
  refine ⟨e, n, he, rfl, least, enlisted, fun agree => ⟨agree.named he, ?_⟩,
    fun c d _ _ _ later run k' below' => ?_⟩
  · rw [enlisted.placed, agree.location_of_free counts.entity?_eq_none, Option.or_none]
  · obtain ⟨e', m, he', _, _, counts', rfl, _⟩ := Mutation.recruit_eq_ok_some_iff.1 k'
    obtain ⟨t, ht, count⟩ := enlisted.counted
    have enough : n ≤ t.recruited := count ▸ UInt32.le_refl n
    obtain ⟨e'', he'', more⟩ := counted_of_onward run ⟨t, ht, enough⟩
    rw [he'] at he''
    cases he''
    have above : e'.recruited < m := (isLeast_of_not_overflows k' below' he' counts').1.1
    intro same
    rw [Mutation.recruitName_inj same] at above
    exact absurd more (UInt32.not_le.2 above)

/-- An orc recruits into its own units, beside an orc that took the next name.  When the
recruit is deleted, its name is not given again. -/
theorem Engine.recruit_fresh_orc : ∃ (g h c d : Engine) (later : String), Reachable g ∧
    Mutation.recruit "orc" (some (.flat 1 2)) (some "orc") none g = some (.ok (some "orc_1"), h) ∧
    Mutation.delete "orc_1" h = some (.ok true, c) ∧
    Mutation.recruit "orc" none none none c = some (.ok (some later), d) ∧ later ≠ "orc_1" := by
  obtain ⟨s, hs⟩ : ∃ s,
      Engine.start { catalog := { lists := [{ name := unitsList }] } } {} = .ok s := ⟨_, rfl⟩
  obtain ⟨g, hi⟩ : ∃ g, [Entity.named "orc", Entity.named "orc_2"].forM Mutation.insert s =
      some (.ok (), g) := by
    cases hs
    exact ⟨_, rfl⟩
  have hg : Reachable g := (Reachable.start hs).insertAll hi
  obtain ⟨h, hr⟩ : ∃ h, Mutation.recruit "orc" (some (.flat 1 2)) (some "orc") none g =
      some (.ok (some "orc_1"), h) := by
    cases hs
    cases hi
    exact ⟨_, rfl⟩
  obtain ⟨c, hd⟩ : ∃ c, Mutation.delete "orc_1" h = some (.ok true, c) := by
    cases hs
    cases hi
    cases hr
    exact ⟨_, rfl⟩
  obtain ⟨later, d, hl⟩ : ∃ later d,
      Mutation.recruit "orc" none none none c = some (.ok (some later), d) := by
    cases hs
    cases hi
    cases hr
    cases hd
    exact ⟨_, _, rfl⟩
  have there : (c.entity? "orc").isSome := by
    obtain ⟨_, _, he, _⟩ := Mutation.recruit_eq_ok_some_iff.1 hl
    exact Option.isSome_of_mem he
  have deleted : Onward h c :=
    .stroke (show Stroke [] ⟨[], h⟩ .touched ⟨[], c⟩ from .touch (.delete hd))
  -- The third name is free throughout.
  have room (next : Engine) : ¬ g.Overflows "orc" next ∧ ¬ h.Overflows "orc" next ∧
      ¬ c.Overflows "orc" next := by
    cases hs
    cases hi
    cases hr
    cases hd
    exact ⟨Engine.not_overflows (n := 3) rfl (by decide) rfl,
      Engine.not_overflows (n := 3) rfl (by decide) rfl,
      Engine.not_overflows (n := 3) rfl (by decide) rfl⟩
  obtain ⟨_, _, _, _, _, _, _, other⟩ := Engine.recruit_fresh hr (room h).1
  have fresh : later ≠ "orc_1" :=
    other c d none none none later (.single ⟨⟨deleted, (room c).2.1⟩, there⟩) hl (room d).2.2
  exact ⟨g, h, c, d, later, hg, hr, hd, hl, fresh⟩

end Tabletop
