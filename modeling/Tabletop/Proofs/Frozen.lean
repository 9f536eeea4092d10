/-
# Immutable entities are frozen

Every change looks at the flag of the entity it is about, and leaves one that is
immutable alone.  Only recruiting writes to an immutable entity: as a template
it counts its recruits.  So an immutable entity stays what it was, up to that
count, through every change (`Engine.Effect.frozen`), hence at every moment of
every operation, whatever scripts, moves, delays and ticks it sets going, and
along every row of operations (`immutable_frozen`).

The count has 32 bits.  It grows, unless a recruit takes it past the greatest number
(`counted_of_frozen`).
-/

import Tabletop.Proofs.Counting

namespace Tabletop

open Relation (ReflTransGen)

/-- An entity is there as it was, up to its count of recruits. -/
def Frozen (name : String) (e : Entity) (g : Engine) : Prop :=
  ∃ n, g.entity? name = some { e with recruited := n }

variable {g h : Engine} {name : String} {e : Entity}

namespace Frozen

/-- Who was found to be mutable is another one. -/
theorem ne_of_mutable (f : Frozen name e g) (hi : e.immutable = true) {other : String} {k : Entity}
    (hk : g.entity? other = some k) (hm : k.immutable = false) : other ≠ name := by
  rintro rfl
  obtain ⟨n, he⟩ := f
  rw [he] at hk
  cases hk
  rw [hi] at hm
  cases hm

/-- A free name is another one. -/
theorem ne_of_free (f : Frozen name e g) {other : String} (hf : g.entity? other = none) :
    other ≠ name := by
  rintro rfl
  obtain ⟨n, he⟩ := f
  rw [he] at hf
  cases hf

/-- What leaves the entity of the name alone leaves it frozen. -/
theorem of_entity?_eq (f : Frozen name e g) (same : h.entity? name = g.entity? name) :
    Frozen name e h := by
  obtain ⟨n, he⟩ := f
  exact ⟨n, same.trans he⟩

/-- Storing another entity leaves it frozen. -/
theorem insert (f : Frozen name e g) {other : String} (ho : other ≠ name) (k : Entity)
    (o : Occupancy) : Frozen name e (g.withTables (g.state.entities.insert other k) o) := by
  refine f.of_entity?_eq ?_
  show (g.state.entities.insert other k)[name]? = _
  rw [Std.ExtTreeMap.getElem?_insert, if_neg (mt Std.compare_eq_iff_eq.1 ho)]
  rfl

/-- Erasing another entity leaves it frozen. -/
theorem erase (f : Frozen name e g) {other : String} (ho : other ≠ name) (o : Occupancy) :
    Frozen name e (g.withTables (g.state.entities.erase other) o) := by
  refine f.of_entity?_eq ?_
  show (g.state.entities.erase other)[name]? = _
  rw [Std.ExtTreeMap.getElem?_erase, if_neg (mt Std.compare_eq_iff_eq.1 ho)]
  rfl

/-- A recruit counts for its template and joins an owner, who is mutable. -/
theorem joined (f : Frozen name e g) {template : String} {k : Entity} {n : UInt32}
    (hk : g.entity? template = some k) (fresh : recruitName template n ≠ name)
    {owner : Option String}
    (keeper : owner ≠ some name) (location : Option Coord) (list : String) (o : Occupancy) :
    Frozen name e (g.withTables (g.joined template k n location owner list) o) := by
  have lookup : (g.withTables (g.joined template k n location owner list) o).entity? name =
      if template = name then some { k with recruited := n } else g.entity? name := by
    show (g.joined template k n location owner list)[name]? = _
    rw [Engine.getElem?_joined, if_neg fresh]
    simp [keeper]
  obtain ⟨m, he⟩ := f
  by_cases ht : template = name
  · subst ht
    rw [he] at hk
    cases hk
    exact ⟨n, by rw [lookup, if_pos rfl]⟩
  · exact ⟨m, by rw [lookup, if_neg ht, he]⟩

end Frozen

/-- **What a change leaves behind leaves immutable entities as they were.** -/
theorem Engine.Effect.frozen {adds : Entity → Prop} (k : g.Effect adds h) (hi : e.immutable = true)
    (f : Frozen name e g) : Frozen name e h := by
  cases k with
  | still | cached | rolled | logged => exact f.of_entity?_eq rfl
  | edited hk hm _ => exact f.insert (f.ne_of_mutable hi hk hm) _ _
  | travelled hk hm _ => exact f.insert (f.ne_of_mutable hi hk hm) _ _
  | deleted hk hm => exact f.erase (f.ne_of_mutable hi hk hm) _
  | inserted _ hf _ _ => exact f.insert (f.ne_of_free hf) _ _
  | @recruited template k location owner list n hk ho _ counts =>
    have fresh : recruitName template n ≠ name := f.ne_of_free counts.entity?_eq_none
    have keeper : owner ≠ some name := by
      rintro rfl
      obtain ⟨_, k', hk', hm⟩ := ho name rfl
      exact f.ne_of_mutable hi hk' hm rfl
    exact f.joined hk fresh keeper location list _

/-- Whatever happens leaves immutable entities as they were. -/
theorem Stroke.frozen {around : List Delay} {a b : Moment} {v : Event} (s : Stroke around a v b)
    (hi : e.immutable = true) (f : Frozen name e a.engine) : Frozen name e b.engine := by
  cases s with
  | touch t => exact t.effect.frozen hi f
  | schedule | tick | age | take => exact f.of_entity?_eq rfl

theorem Onward.frozen (k : Onward g h) (hi : e.immutable = true) (f : Frozen name e g) :
    Frozen name e h := by
  cases k with
  | stroke s => exact s.frozen hi f
  | requeued => exact f.of_entity?_eq rfl
  | kept k =>
    refine f.of_entity?_eq ?_
    rw [Engine.entity?, g.state_retrieve, Engine.entity?]

/-- An immutable entity counts on as long as it does not overflow, for it is there. -/
theorem counted_of_frozen (run : ReflTransGen (OnwardBelow name) g h) (hi : e.immutable = true)
    (he : g.entity? name = some e) : Frozen name e h ∧ Counted name e.recruited h := by
  induction run with
  | refl => exact ⟨⟨e.recruited, he⟩, e, he, UInt32.le_refl _⟩
  | tail _ k ih =>
    have frozen := k.1.frozen hi ih.1
    refine ⟨frozen, k.1.counted ?_ k.2 ih.2⟩
    obtain ⟨n, hn⟩ := frozen
    exact Option.isSome_of_mem hn

/-- **An immutable entity stays what it is**, whatever operations are done and
whether they succeed, but for its count of recruits.  That has not fallen, if no recruit on
the way from the one engine to the other took it past its greatest number. -/
theorem immutable_frozen (k : ReflTransGen Operates g h) (he : g.entity? name = some e)
    (hi : e.immutable = true) :
    ∃ n, h.entity? name = some { e with recruited := n } ∧
      (ReflTransGen (OnwardBelow name) g h → e.recruited ≤ n) := by
  have frozen : Frozen name e h := by
    induction k with
    | refl => exact ⟨e.recruited, he⟩
    | tail _ k ih =>
      exact k.preserves (fun s => s.frozen hi) (fun f => f.of_entity?_eq rfl) ih
  obtain ⟨n, hn⟩ := frozen
  refine ⟨n, hn, fun run => ?_⟩
  obtain ⟨_, k, hk, counted⟩ := counted_of_frozen run hi he
  rw [hn] at hk
  cases hk
  exact counted

/-- A statue that was recruited six times. -/
def statue : Entity := { Entity.named "statue" with immutable := true, recruited := 6 }

/-- A game of nothing but the statue. -/
def garden : Engine :=
  { registry := {}
    config := {}
    schema := {}
    state := { entities := .ofList [("statue", statue)], dice := { seed := 0 } }
    history := .ofList [] }

/-- The statue, not deleted when asked for and then recruited, is what it was, and has
counted on. -/
theorem immutable_frozen_statue : ∃ (m h : Engine) (n : UInt32),
    Operation.run 0 (.delete "statue") garden = some (.ok (), m) ∧
      Operation.run 0 (.recruit "statue" none none none) m = some (.ok (), h) ∧
      h.entity? "statue" = some { statue with recruited := n } ∧ 6 ≤ n := by
  obtain ⟨m, hm⟩ : ∃ m, Mutation.delete "statue" garden = some (.ok false, m) := ⟨_, rfl⟩
  obtain ⟨name, h, hh⟩ : ∃ name h,
      Mutation.recruit "statue" none none none m = some (.ok (some name), h) := by
    cases hm
    exact ⟨_, _, rfl⟩
  have deletes : Operation.run 0 (.delete "statue") garden = some (.ok (), m) :=
    Run.bind_apply_ok hm
  have recruits : Operation.run 0 (.recruit "statue" none none none) m = some (.ok (), h) :=
    Run.bind_apply_ok hh
  have k : ReflTransGen Operates garden h :=
    .tail (.single ⟨_, _, _, deletes⟩) ⟨_, _, _, recruits⟩
  have there : garden.entity? "statue" = some statue := rfl
  have below : ReflTransGen (OnwardBelow "statue") garden h := by
    have deleted : Onward garden m :=
      .stroke (show Stroke [] ⟨[], garden⟩ .touched ⟨[], m⟩ from .touch (.delete hm))
    have recruited : Onward m h :=
      .stroke (show Stroke [] ⟨[], m⟩ .touched ⟨[], h⟩ from .touch (.recruit hh))
    have free : garden.entity? (recruitName "statue" 7) = none := rfl
    have same : m = garden := by
      cases hm
      rfl
    have room (next : Engine) : ¬ garden.Overflows "statue" next :=
      Engine.not_overflows there (by decide : statue.recruited < 7) free
    exact .tail (.single ⟨deleted, room m⟩) ⟨recruited, same ▸ room h⟩
  obtain ⟨n, hn, grown⟩ := immutable_frozen k there rfl
  exact ⟨m, h, n, deletes, recruits, hn, grown below⟩

end Tabletop
