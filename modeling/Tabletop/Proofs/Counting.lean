/-
# How templates count

A template counts its recruits in 32 bits.  Nothing else that happens to a game changes
its count (`Engine.Effect.counted`): a recruit takes it to the next number above whose
name is free, or past the greatest number if no number above is left
(`Engine.Overflows`).  So the count of a template that is there does not fall, whatever
else happens, unless a recruit makes it overflow (`counted_of_onward`).

What happens to a game that is not rolled back is a row of single steps (`Onward`), in the
midst of operations too (`Operates.onward`).
-/

import Tabletop.Proofs.Reachable

namespace Tabletop

open Relation (ReflTransGen)

variable {g h : Engine} {template : String} {n : UInt32}

/-- Edits leave the count of recruits as it is. -/
theorem Entity.Edit.recruited_eq {s : Schema} {name : String} {e e' : Entity}
    (h : e.Edit s name e') : e'.recruited = e.recruited := by
  cases h with
  | remove _ _ k => rw [remove?_eq_some k]
  | _ => rfl

/-! ### Steps -/

/-- One thing happens to a game that is not rolled back. -/
inductive Onward : Engine → Engine → Prop
  | stroke {around a e b} : Stroke around a e b → Onward a.engine b.engine
  | requeued {rest g} : Onward g (Clock.requeue rest g)
  | kept {g : Engine} (k : Nat) : Onward g (g.retrieve k).2

/-- An operation, whatever it sets going, is a row of what happens. -/
theorem Operates.onward (k : Operates g h) : ReflTransGen Onward g h :=
  k.preserves (P := ReflTransGen Onward g) (fun s a => a.tail (.stroke s))
    (fun a => a.tail .requeued) .refl

/-! ### Recruits -/

namespace Engine

/-- Someone who was there before a recruit joined, as they are afterwards: a template has
counted up to the number of the recruit, and an owner lists it. -/
def afterRecruit (template : String) (n : UInt32) (owner : Option String) (list name : String)
    (k : Entity) : Entity :=
  let k := if template = name then { k with recruited := n } else k
  if owner = some name then k.append list [.name (recruitName template n)] else k

section AfterRecruit

variable {owner : Option String} {list name : String} {k : Entity}

theorem recruited_afterRecruit : (afterRecruit template n owner list name k).recruited =
    if template = name then n else k.recruited := by
  unfold afterRecruit
  split <;> split <;> rfl

/-- Who was there under another name is there afterwards. -/
theorem getElem?_joined_of_ne {e : Entity} (he : g.entity? template = some e)
    (location : Option Coord) (hn : name ≠ recruitName template n) :
    (g.joined template e n location owner list)[name]? =
      (g.entity? name).map (afterRecruit template n owner list name) := by
  rw [getElem?_joined, if_neg (Ne.symm hn)]
  by_cases ht : template = name
  · subst ht
    simp [he, afterRecruit]
  · rw [if_neg ht]
    refine Option.map_congr fun k _ => ?_
    rw [afterRecruit, if_neg ht]

end AfterRecruit

/-- A template is recruited while the names of all numbers above its count are taken, so
that the count passes the greatest number. -/
structure Overflows (g : Engine) (template : String) (h : Engine) : Prop where
  recruits : ∃ location owner list name,
    Mutation.recruit template location owner list g = some (.ok (some name), h)
  full : ∃ e, g.entity? template = some e ∧
    ∀ n, e.recruited < n → (g.entity? (recruitName template n)).isSome

/-- Where a number above the count has a free name, a template does not overflow. -/
theorem not_overflows {e : Entity} (he : g.entity? template = some e) (above : e.recruited < n)
    (free : g.entity? (recruitName template n) = none) : ¬ g.Overflows template h := by
  rintro ⟨_, e', he', full⟩
  rw [he] at he'
  cases he'
  have taken := full n above
  rw [free] at taken
  cases taken

/-- **Without overflow a recruit gets the least number above the count whose name is free.** -/
theorem isLeast_of_not_overflows {location : Option Coord} {owner list : Option String}
    {name : String} {e : Entity}
    (k : Mutation.recruit template location owner list g = some (.ok (some name), h))
    (below : ¬ g.Overflows template h) (he : g.entity? template = some e)
    (counts : Mutation.CountsTo (Mutation.Taken g template) e.recruited n) :
    IsLeast {m | e.recruited < m ∧ g.entity? (recruitName template m) = none} n := by
  have free (m : UInt32) :
      ¬ Mutation.Taken g template m ↔ g.entity? (recruitName template m) = none := by
    rw [Mutation.Taken, Bool.not_eq_true, contains_eq_false_iff]
  have left : ∃ m, e.recruited < m ∧ ¬ Mutation.Taken g template m := by
    by_contra none
    refine below ⟨⟨location, owner, list, name, k⟩, e, he, fun m above => ?_⟩
    rw [Option.isSome_iff_ne_none, ne_eq, ← free]
    exact fun other => none ⟨m, above, other⟩
  have least := counts.isLeast left
  simpa only [free] using least

end Engine

/-! ### Counts -/

/-- A template has counted up to a number. -/
def Counted (template : String) (n : UInt32) (g : Engine) : Prop :=
  ∃ e, g.entity? template = some e ∧ n ≤ e.recruited

namespace Counted

theorem of_entity?_eq (c : Counted template n g) (same : h.entity? template = g.entity? template) :
    Counted template n h := by
  obtain ⟨e, he, hn⟩ := c
  exact ⟨e, same.trans he, hn⟩

/-- Storing another entity, or the template with no lower count, keeps the count. -/
theorem insert (c : Counted template n g) {name : String} {e : Entity}
    (same : template = name → n ≤ e.recruited) (o : Occupancy) :
    Counted template n (g.withTables (g.state.entities.insert name e) o) := by
  by_cases ht : template = name
  · subst ht
    exact ⟨e, Std.ExtTreeMap.getElem?_insert_self, same rfl⟩
  · refine c.of_entity?_eq ?_
    show (g.state.entities.insert name e)[template]? = _
    rw [Std.ExtTreeMap.getElem?_insert, if_neg (mt Std.compare_eq_iff_eq.1 (Ne.symm ht))]
    rfl

/-- An entity that is there has the count of the template, if it is the template. -/
theorem le_recruited (c : Counted template n g) {name : String} {e : Entity}
    (he : g.entity? name = some e) (ht : template = name) : n ≤ e.recruited := by
  subst ht
  obtain ⟨e', he', hn⟩ := c
  rw [he'] at he
  cases he
  exact hn

end Counted

/-- **A template that is still there has counted no fewer**, whatever a change did, unless
it overflowed. -/
theorem Engine.Effect.counted {adds : Entity → Prop} (k : g.Effect adds h)
    (there : (h.entity? template).isSome) (below : ¬ g.Overflows template h)
    (c : Counted template n g) : Counted template n h := by
  cases k with
  | still | cached | rolled | logged => exact c.of_entity?_eq rfl
  | edited he _ hk => exact c.insert (fun ht => hk.recruited_eq ▸ c.le_recruited he ht) _
  | @travelled name e goal he _ _ =>
    have kept (ht : template = name) : n ≤ e.recruited := c.le_recruited he ht
    exact c.insert (e := { e with location := goal }) kept _
  | @deleted name e =>
    refine c.of_entity?_eq ?_
    change (g.state.entities.erase name)[template]?.isSome at there
    show (g.state.entities.erase name)[template]? = _
    rw [Std.ExtTreeMap.getElem?_erase] at there ⊢
    split at there
    · cases there
    · next other => rw [if_neg other]; rfl
  | inserted _ free _ _ =>
    refine c.insert (fun ht => ?_) _
    obtain ⟨e', he', _⟩ := c
    rw [ht, free] at he'
    cases he'
  | @recruited other e location owner list m he howner inside counts =>
    obtain ⟨k, hk, hn⟩ := c
    have ne : template ≠ recruitName other m := by
      rintro rfl
      rw [counts.entity?_eq_none] at hk
      cases hk
    refine ⟨_, (getElem?_joined_of_ne he location ne).trans (by rw [hk, Option.map_some]), ?_⟩
    rw [recruited_afterRecruit]
    split
    · next same =>
      subst same
      rw [he] at hk
      cases hk
      have recruit : Mutation.recruit other location owner (some list) g =
          some (.ok (some (recruitName other m)), _) :=
        Mutation.recruit_eq_ok_some_iff.2 ⟨e, m, he, howner, inside, counts, rfl, rfl⟩
      have above := (isLeast_of_not_overflows recruit below he counts).1.1
      rw [UInt32.le_iff_toNat_le, UInt32.lt_iff_toNat_lt] at *
      omega
    · exact hn

/-- Whatever happens without a rollback, a template that is still there has counted no
fewer, unless it overflowed. -/
theorem Onward.counted (k : Onward g h) (there : (h.entity? template).isSome)
    (below : ¬ g.Overflows template h) (c : Counted template n g) : Counted template n h := by
  cases k with
  | stroke s =>
    cases s with
    | touch t => exact t.effect.counted there below c
    | schedule | tick | age | take => exact c.of_entity?_eq rfl
  | requeued => exact c.of_entity?_eq rfl
  | kept k =>
    refine c.of_entity?_eq ?_
    rw [Engine.entity?, g.state_retrieve, Engine.entity?]

/-- One thing happens to a game that is not rolled back, and a template does not overflow. -/
def OnwardBelow (template : String) (g h : Engine) : Prop := Onward g h ∧ ¬ g.Overflows template h

/-- One such thing happens, and the template is still there. -/
def OnwardWith (template : String) (g h : Engine) : Prop :=
  OnwardBelow template g h ∧ (h.entity? template).isSome

theorem counted_of_onward {c : Engine} (run : ReflTransGen (OnwardWith template) h c)
    (counted : Counted template n h) : Counted template n c := by
  induction run with
  | refl => exact counted
  | tail _ k ih => exact k.1.1.counted k.2 k.1.2 ih

end Tabletop
