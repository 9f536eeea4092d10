/-
# Lineage: what inheritance means

The inheritance graph has an edge from an entity to every name in its group
except its own, in order, and then to every name in its inheriting lists, in
the order in which they are declared (`Engine.edges`).  Where a name is grounded
(`Grounded`), every name that edges lead to exists and none of them is its own
ancestor.  Its lineage is then the entity followed by the lineages along its
edges (`Grounded.lineage_eq`), so an ancestor is there once for every way to it.

A walk keeps the names on its way, and on grounded names it never meets one of
them again (`Way`); it is therefore the fold of its visitor over the lineage
(`Grounded.walk_eq`).  The inherited values are folds over the lineage
(`inherited_eq`).
-/

import Mathlib.Algebra.Ring.Int.Defs
import Mathlib.Logic.Relation
import Tabletop.Engine.Inheritance
import Tabletop.Proofs.Effect

namespace Tabletop

open Relation (ReflTransGen TransGen)

namespace Engine

/-- The names an entity inherits from, in order: its groups without itself, and
then the entries of the inheriting lists. -/
def edges (g : Engine) (name : String) : List String :=
  match g.entity? name with
  | none => []
  | some e =>
    (e.group.filterMap (·.name?)).filter (· ≠ name) ++
      (g.config.catalog.lists.filter (·.inherits)).flatMap fun l =>
        (e.list l.name).filterMap (·.name?)

/-- A name inherits from another. -/
def Inherits (g : Engine) (name parent : String) : Prop := parent ∈ g.edges name

/-- Every name that inheritance leads to exists, and none of them is its own
ancestor. -/
structure Grounded (g : Engine) (name : String) : Prop where
  known : ∀ {other}, ReflTransGen g.Inherits name other → ∃ e, g.entity? other = some e
  acyclic : ∀ {other}, ReflTransGen g.Inherits name other → ¬ TransGen g.Inherits other other

/-- An entity and what it inherits from, followed for a number of steps. -/
def followed (g : Engine) : Nat → String → List Entity
  | 0, _ => []
  | steps + 1, name =>
    match g.entity? name with
    | none => []
    | some e => e :: (g.edges name).flatMap (g.followed steps)

/-- An entity and what it inherits from, each ancestor once for every way to it. -/
def lineage (g : Engine) (name : String) : List Entity :=
  g.followed (g.state.entities.size + 1) name

variable {g : Engine} {path : List String} {name : String}

/-- Edges start at entities. -/
theorem Inherits.exists_entity {parent : String} (h : g.Inherits name parent) :
    ∃ e, g.entity? name = some e := by
  unfold Inherits edges at h
  split at h
  · cases h
  · next e he => exact ⟨e, he⟩

/-! ### Ways -/

/-- The names on a way along edges, last one first, that lead to another name. -/
structure Way (g : Engine) (path : List String) (name : String) : Prop where
  nodup : path.Nodup
  known : ∀ other ∈ path, g.contains other
  leads : ∀ other ∈ path, TransGen g.Inherits other name

namespace Way

theorem nil (name : String) : g.Way [] name where
  nodup := List.nodup_nil
  known _ h := nomatch h
  leads _ h := nomatch h

/-- A name that is not its own ancestor is not on the way to it. -/
theorem not_mem (w : g.Way path name) (hn : g.Grounded name) : name ∉ path :=
  fun h => hn.acyclic .refl (w.leads name h)

/-- The way goes on along an edge, from a name that it has not met. -/
theorem cons (w : g.Way path name) (hn : name ∉ path) {parent : String}
    (hp : g.Inherits name parent) : g.Way (name :: path) parent where
  nodup := List.nodup_cons.2 ⟨hn, w.nodup⟩
  known other ho := by
    rcases List.mem_cons.1 ho with rfl | ho
    · obtain ⟨e, he⟩ := hp.exists_entity
      by_contra h
      rw [Bool.not_eq_true, contains_eq_false_iff, he] at h
      cases h
    · exact w.known other ho
  leads other ho := by
    rcases List.mem_cons.1 ho with rfl | ho
    · exact .single hp
    · exact (w.leads other ho).tail hp

/-- A way is no longer than the table of entities. -/
theorem length_le (w : g.Way path name) : path.length ≤ g.state.entities.size :=
  g.length_le_size w.nodup w.known

end Way

/-- What inheritance leads to from a grounded name is grounded. -/
theorem Grounded.reach {other : String} (hn : g.Grounded name)
    (h : ReflTransGen g.Inherits name other) : g.Grounded other where
  known k := hn.known (h.trans k)
  acyclic k := hn.acyclic (h.trans k)

/-- **What passes from the edges of a name to the name holds of every grounded
name**, at the end of any way, with a step for every entity that is not on it
and one more. -/
theorem Way.induction {P : Nat → List String → String → Prop}
    (step : ∀ {steps path name e}, name ∉ path → g.entity? name = some e →
      (∀ parent ∈ g.edges name, P steps (name :: path) parent) → P (steps + 1) path name)
    (w : g.Way path name) (hn : g.Grounded name) {steps : Nat}
    (hs : g.state.entities.size < steps + path.length) : P steps path name := by
  induction steps generalizing path name with
  | zero =>
    -- The way would be longer than the table.
    have := w.length_le
    omega
  | succ steps ih =>
    obtain ⟨e, he⟩ := hn.known .refl
    refine step (w.not_mem hn) he fun parent hp => ?_
    refine ih (w.cons (w.not_mem hn) hp) (hn.reach (.single hp)) ?_
    rw [List.length_cons]
    omega

/-! ### The lineage -/

theorem followed_succ {e : Entity} (he : g.entity? name = some e) (steps : Nat) :
    g.followed (steps + 1) name = e :: (g.edges name).flatMap (g.followed steps) := by
  rw [followed, he]

/-- More steps than entities lead no further. -/
theorem Grounded.followed_eq_lineage (hn : g.Grounded name) (more : Nat) :
    g.followed (g.state.entities.size + 1 + more) name = g.lineage name := by
  refine Way.induction (P := fun steps _ name => g.followed (steps + more) name =
    g.followed steps name) (fun {steps path name e} _ he ih => ?_) (.nil name) hn (by simp)
  rw [Nat.succ_add, followed_succ he, followed_succ he, List.flatMap_congr ih]

/-- **The lineage of a grounded name is its entity, followed by the lineages along
its edges.** -/
theorem Grounded.lineage_eq (hn : g.Grounded name) :
    ∃ e, g.entity? name = some e ∧ g.lineage name = e :: (g.edges name).flatMap g.lineage := by
  obtain ⟨e, he⟩ := hn.known .refl
  refine ⟨e, he, ?_⟩
  rw [← hn.followed_eq_lineage 1, followed_succ he]
  rfl

/-! ### Walks -/

/-- The parents of an entity are where its edges lead. -/
theorem parents_eq_edges (hs : Schema.ofCatalog g.config.catalog = .ok g.schema) {e : Entity}
    (he : g.entity? name = some e) : g.schema.parents name e = g.edges name := by
  obtain ⟨kinds, _, hs⟩ := Except.bind_eq_ok_iff.1 hs
  rw [edges, he, Schema.parents, ← Except.ok.inj hs]
  simp only [List.flatMap_map]

/-- Folding over rows in turn is folding over all of them. -/
theorem foldlM_flatMap {ε α β γ : Type} {visit : α → γ → Except ε α} {walk : α → β → Except ε α}
    {row : β → List γ} {items : List β}
    (h : ∀ b ∈ items, ∀ a, walk a b = (row b).foldlM visit a) (a : α) :
    items.foldlM walk a = (items.flatMap row).foldlM visit a := by
  induction items generalizing a with
  | nil => rfl
  | cons b items ih =>
    rw [List.foldlM_cons, List.flatMap_cons, List.foldlM_append, h b List.mem_cons_self a]
    refine bind_congr fun a' => ?_
    exact ih (fun b' hb => h b' (List.mem_cons_of_mem b hb)) a'

variable {α ε : Type}

/-- **A walk from a grounded name visits its lineage.** -/
theorem Grounded.walk_eq (hn : g.Grounded name)
    (hs : Schema.ofCatalog g.config.catalog = .ok g.schema) (visit : α → Entity → Except ε α)
    (fail : Fault → ε) (a : α) :
    g.walk visit fail name a = (g.lineage name).foldlM visit a := by
  refine Way.induction (P := fun steps path name => ∀ a, g.walkFrom visit fail steps path name a =
    (g.followed steps name).foldlM visit a) (fun {steps path name e} hp he ih a => ?_)
    (.nil name) hn (by simp) a
  rw [walkFrom, if_neg (by simpa using hp), he, followed_succ he, List.foldlM_cons]
  refine bind_congr fun a' => ?_
  rw [parents_eq_edges hs he]
  exact foldlM_flatMap ih a'

theorem Grounded.visited_eq (hn : g.Grounded name)
    (hs : Schema.ofCatalog g.config.catalog = .ok g.schema) :
    g.visited name = .ok (g.lineage name) := by
  unfold visited
  rw [hn.walk_eq hs]
  have h : ∀ (es acc : List Entity), es.foldlM (fun es e => .ok (e :: es)) acc =
      (.ok (es.reverse ++ acc) : Except Fault (List Entity)) := fun es acc => by
    induction es generalizing acc with
    | nil => rfl
    | cons e es ih => exact (ih (e :: acc)).trans (by simp)
  rw [h, List.append_nil]
  exact congrArg Except.ok (List.reverse_reverse _)

/-! ### Inherited values -/

/-- Looking for a string along entities ends at the first that is not empty. -/
theorem foldlM_seekString (string : String) (es : List Entity) :
    es.foldlM (seekString string) () =
      match (es.filterMap (·.string string)).find? (· ≠ "") with
      | some text => .error (.ok text)
      | none => .ok () := by
  induction es with
  | nil => rfl
  | cons e es ih =>
    rw [List.foldlM_cons, seekString, List.filterMap_cons]
    cases hs : e.string string with
    | none => exact ih
    | some text =>
      by_cases ht : text = ""
      · rw [ht]
        exact ih
      · simp only [Option.filter, ne_eq, ht, not_false_eq_true, decide_true, if_true,
          List.find?_cons]
        rfl

/-- No sum on the way from a number over others leaves the range of integers. -/
def StaysInRange (sum : Int) (values : List Int) : Prop :=
  ∀ k, Integer.InRange (sum + (values.take k).sum)

theorem staysInRange_cons {sum value : Int} {values : List Int} :
    StaysInRange sum (value :: values) ↔
      Integer.InRange sum ∧ StaysInRange (sum + value) values := by
  constructor
  · intro h
    refine ⟨by simpa using h 0, fun k => ?_⟩
    have := h (k + 1)
    rwa [List.take_succ_cons, List.sum_cons, ← Int.add_assoc] at this
  · rintro ⟨h₀, h⟩ k
    cases k with
    | zero => simpa using h₀
    | succ k =>
      rw [List.take_succ_cons, List.sum_cons, ← Int.add_assoc]
      exact h k

/-- Adding a stat to a sum in range, where an absent stat counts as 0. -/
theorem addStat_eq {sum : Int} (h : Integer.InRange sum) (stat : String) (e : Entity) :
    addStat stat sum e = if Integer.InRange (sum + (e.stat stat).getD 0) then
      .ok (sum + (e.stat stat).getD 0) else .error (.arithmetic .overflow) := by
  unfold addStat
  cases e.stat stat with
  | none => simp [h]
  | some value =>
    by_cases hv : Integer.InRange (sum + value)
    · simp [Integer.checked_eq_some_iff.2 ⟨hv, rfl⟩, hv]
    · simp [Integer.checked_eq_none_iff.2 hv, hv]

/-- Adding up a stat along entities gives the sum if no partial sum leaves the
range of integers, and overflows otherwise. -/
theorem foldlM_addStat (stat : String) (es : List Entity) {sum : Int} (h : Integer.InRange sum) :
    (StaysInRange sum (es.map fun e => (e.stat stat).getD 0) →
      es.foldlM (addStat stat) sum = .ok (sum + (es.map fun e => (e.stat stat).getD 0).sum)) ∧
    (¬ StaysInRange sum (es.map fun e => (e.stat stat).getD 0) →
      es.foldlM (addStat stat) sum = .error (.arithmetic .overflow)) := by
  induction es generalizing sum with
  | nil =>
    have nothing : StaysInRange sum [] := fun _ => by simpa using h
    exact ⟨fun _ => by simp [pure, Except.pure], absurd nothing⟩
  | cons e es ih =>
    rw [List.foldlM_cons, List.map_cons, staysInRange_cons, List.sum_cons, addStat_eq h]
    by_cases hv : Integer.InRange (sum + (e.stat stat).getD 0)
    · rw [if_pos hv, ← Int.add_assoc]
      exact ⟨fun k => (ih hv).1 k.2, fun k => (ih hv).2 fun k' => k ⟨h, k'⟩⟩
    · rw [if_neg hv]
      refine ⟨fun k => absurd ?_ hv, fun _ => rfl⟩
      simpa using k.2 0

/-- **What an entity inherits is read off its lineage.**  For a grounded name, the
lineage is the entity followed by the lineages along its edges, and so for every
name that inheritance leads to.  An inherited list is the own lists along the
lineage, an inherited string the first own one that is not empty, and a stat the
sum of the own values from the left, unless a partial sum leaves the range of
integers. -/
theorem inherited_eq (hs : Schema.ofCatalog g.config.catalog = .ok g.schema)
    (hn : g.Grounded name) :
    (∀ other, ReflTransGen g.Inherits name other →
      ∃ e, g.entity? other = some e ∧
        g.lineage other = e :: (g.edges other).flatMap g.lineage) ∧
    (∀ list, g.inheritedList name list = .ok ((g.lineage name).flatMap (·.list list))) ∧
    (∀ string, g.inheritedString name string =
      .ok ((((g.lineage name).filterMap (·.string string)).find? (· ≠ "")).getD "")) ∧
    ∀ stat, let values := (g.lineage name).map fun e => (e.stat stat).getD 0
      ((∀ k, Integer.InRange (values.take k).sum) → g.statTotal name stat = .ok values.sum) ∧
      ((∃ k, ¬ Integer.InRange (values.take k).sum) →
        g.statTotal name stat = .error (.arithmetic .overflow)) := by
  refine ⟨fun other h => (hn.reach h).lineage_eq, fun list => ?_, fun string => ?_,
    fun stat => ?_⟩
  · unfold inheritedList
    rw [hn.visited_eq hs]
    rfl
  · unfold inheritedString
    rw [hn.walk_eq hs, foldlM_seekString]
    cases ((g.lineage name).filterMap (·.string string)).find? (· ≠ "") <;> rfl
  · have zero : Integer.InRange 0 := by decide
    have total := foldlM_addStat stat (g.lineage name) zero
    simp only [StaysInRange, Int.zero_add] at total
    unfold statTotal
    rw [hn.walk_eq hs]
    exact ⟨total.1, fun ⟨k, hk⟩ => total.2 fun h => hk (h k)⟩

/-- An orc that belongs to the beasts has its own hit points and theirs. -/
theorem inherited_eq_orc : ∃ g : Engine, g.Grounded "orc" ∧ g.statTotal "orc" "HP" = .ok 7 := by
  obtain ⟨schema, hs⟩ : ∃ schema, Schema.ofCatalog { stats := ["HP"] } = .ok schema := ⟨_, rfl⟩
  let beast := (Entity.named "beast").setStat "HP" 3
  let orc := ((Entity.named "orc").append groupList [.name "beast"]).setStat "HP" 4
  let g : Engine :=
    { registry := {}
      config := { catalog := { stats := ["HP"] } }
      schema
      state := { entities := .ofList [("beast", beast), ("orc", orc)], dice := { seed := 0 } } }
  have eo : g.edges "orc" = ["beast"] := rfl
  have eb : g.edges "beast" = [] := rfl
  have hb : ∀ {other}, ¬ g.Inherits "beast" other := fun h => by
    rw [Inherits, eb] at h
    cases h
  have ho : ∀ {other}, g.Inherits "orc" other → other = "beast" := fun h => by
    rw [Inherits, eo] at h
    exact List.mem_singleton.1 h
  have reach : ∀ {other}, ReflTransGen g.Inherits "orc" other →
      other = "orc" ∨ other = "beast" := by
    intro other h
    induction h with
    | refl => exact .inl rfl
    | tail _ h ih =>
      rcases ih with rfl | rfl
      · exact .inr (ho h)
      · exact absurd h hb
  have grounded : g.Grounded "orc" := by
    refine ⟨fun h => ?_, fun h cycle => ?_⟩
    · rcases reach h with rfl | rfl
      · exact ⟨orc, rfl⟩
      · exact ⟨beast, rfl⟩
    · obtain ⟨mid, first, rest⟩ := TransGen.head'_iff.1 cycle
      rcases reach h with rfl | rfl
      · obtain rfl := ho first
        rcases rest.cases_head with e | ⟨_, k, _⟩
        · exact absurd e (by decide)
        · exact hb k
      · exact hb first
  have range : ∀ k, Integer.InRange (([4, 3] : List Int).take k).sum
    | 0 | 1 => by decide
    | _ + 2 => by simp [Integer.InRange, Integer.least, Integer.greatest]
  have values : (g.lineage "orc").map (fun e => (e.stat "HP").getD 0) = [4, 3] := rfl
  have total := (inherited_eq (g := g) hs grounded).2.2.2 "HP"
  rw [values] at total
  exact ⟨g, grounded, total.1 range⟩

end Engine
end Tabletop
