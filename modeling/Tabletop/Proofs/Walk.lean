/-
# Walks always end

Inheritance may go in circles and lead to names that nobody has.  A walk knows
only the names on its way, and yet it always ends: the way to a name
(`Trail`) repeats no name and meets entities only, so it is never longer than
the table of entities.

`Walks` says how a walk goes with no bound on its steps.  It has exactly one
outcome from every name, and that is the outcome of `Engine.walk`
(`walks_iff`).  An outcome without a fault means that the name is grounded
(`Walks.grounded`), and a fault tells the truth: a cycle is a way along edges
that comes back to itself (`Loop`), and an unknown name is one that edges lead
to (`Walks.fault`).  So an inherited list exists exactly for the grounded names
(`inheritedList_exact`).
-/

import Tabletop.Proofs.Lineage
import Mathlib.Data.List.Chain

namespace Tabletop

open Relation (ReflTransGen TransGen)

namespace Engine

variable {g : Engine} {path : List String} {name start : String}

/-! ### Trails -/

/-- The names a walk from a start has on its way to a name, last one first. -/
inductive Trail (g : Engine) (start : String) : List String → String → Prop
  | start : Trail g start [] start
  | step {path name parent} : Trail g start path name → name ∉ path → g.Inherits name parent →
      Trail g start (name :: path) parent

/-- A way along edges from a start whose last name is there before, and no other
name is there twice. -/
structure Loop (g : Engine) (start : String) (path : List String) (last : String) : Prop where
  starts : (path ++ [last]).head? = some start
  chain : (path ++ [last]).IsChain g.Inherits
  nodup : path.Nodup
  returns : last ∈ path

namespace Trail

theorem way (t : g.Trail start path name) : g.Way path name := by
  induction t with
  | start => exact .nil start
  | step _ hn hp ih => exact ih.cons hn hp

theorem reach (t : g.Trail start path name) : ReflTransGen g.Inherits start name := by
  induction t with
  | start => exact .refl
  | step _ _ hp ih => exact ih.tail hp

theorem chain (t : g.Trail start path name) : (path.reverse ++ [name]).IsChain g.Inherits := by
  induction t with
  | start => exact List.isChain_singleton start
  | @step path name parent _ _ hp ih =>
    rw [List.reverse_cons, List.append_assoc]
    exact List.isChain_append_cons_cons.2 ⟨ih, hp, List.isChain_singleton parent⟩

theorem starts (t : g.Trail start path name) : (path.reverse ++ [name]).head? = some start := by
  induction t with
  | start => rfl
  | step _ _ _ ih => rw [List.reverse_cons, List.head?_append, ih, Option.some_or]

/-- A trail that comes to one of its names is a loop. -/
theorem loop (t : g.Trail start path name) (h : name ∈ path) : g.Loop start path.reverse name where
  starts := t.starts
  chain := t.chain
  nodup := List.nodup_reverse.2 t.way.nodup
  returns := List.mem_reverse.2 h

end Trail

/-! ### Walks without a bound -/

variable {α ε : Type}

/-- How a walk goes to names in turn, with a path on the way to them and no bound on
its steps. -/
inductive Walks (g : Engine) (visit : α → Entity → Except ε α) (fail : Fault → ε) :
    List String → List String → α → Except ε α → Prop
  | done {path a} : Walks g visit fail path [] a (.ok a)
  /-- The name is on the way already. -/
  | cycle {path name names a} : name ∈ path →
      Walks g visit fail path (name :: names) a (.error (fail (.cycle (path.reverse ++ [name]))))
  /-- Nobody has the name. -/
  | unknown {path name names a} : name ∉ path → g.entity? name = none →
      Walks g visit fail path (name :: names) a (.error (fail (.undefined .entity name)))
  /-- The visitor ends the walk. -/
  | ended {path name names a e x} : name ∉ path → g.entity? name = some e →
      visit a e = .error x → Walks g visit fail path (name :: names) a (.error x)
  /-- The walk ends further on along the edges of the name. -/
  | failed {path name names a e b x} : name ∉ path → g.entity? name = some e →
      visit a e = .ok b → Walks g visit fail (name :: path) (g.edges name) b (.error x) →
      Walks g visit fail path (name :: names) a (.error x)
  /-- The walk comes back from the edges of the name and goes on. -/
  | next {path name names a e b c r} : name ∉ path → g.entity? name = some e →
      visit a e = .ok b → Walks g visit fail (name :: path) (g.edges name) b (.ok c) →
      Walks g visit fail path names c r → Walks g visit fail path (name :: names) a r

variable {visit : α → Entity → Except ε α} {fail : Fault → ε} {a b : α} {names : List String}
  {r : Except ε α} {steps : Nat}

theorem walkFrom_cycle (h : name ∈ path) : g.walkFrom visit fail (steps + 1) path name a =
    .error (fail (.cycle (path.reverse ++ [name]))) := by
  rw [walkFrom, if_pos (List.contains_iff_mem.2 h), List.reverse_cons]

theorem walkFrom_unknown (h : name ∉ path) (he : g.entity? name = none) :
    g.walkFrom visit fail (steps + 1) path name a = .error (fail (.undefined .entity name)) := by
  rw [walkFrom, if_neg (by simpa using h), he]

theorem walkFrom_known {e : Entity} (h : name ∉ path) (he : g.entity? name = some e) :
    g.walkFrom visit fail (steps + 1) path name a = (visit a e >>= fun b =>
      (g.schema.parents name e).foldlM
        (fun a parent => g.walkFrom visit fail steps (name :: path) parent a) b) := by
  rw [walkFrom, if_neg (by simpa using h), he]

theorem walkFrom_ended {e : Entity} {x : ε} (h : name ∉ path) (he : g.entity? name = some e)
    (hv : visit a e = .error x) : g.walkFrom visit fail (steps + 1) path name a = .error x := by
  rw [walkFrom_known h he, hv]
  rfl

theorem walkFrom_visited (hs : Schema.ofCatalog g.config.catalog = .ok g.schema) {e : Entity}
    (h : name ∉ path) (he : g.entity? name = some e) (hv : visit a e = .ok b) :
    g.walkFrom visit fail (steps + 1) path name a =
      (g.edges name).foldlM (fun a parent => g.walkFrom visit fail steps (name :: path) parent a)
        b := by
  rw [walkFrom_known h he, hv, parents_eq_edges hs he]
  rfl

/-- A trail leaves at least one step, with a step for every entity that is not on it
and one more. -/
theorem Trail.exists_steps (t : g.Trail start path name)
    (hb : g.state.entities.size < steps + path.length) : ∃ k, steps = k + 1 := by
  have := t.way.length_le
  exact Nat.exists_eq_add_one.2 (by omega)

namespace Walks

/-- **A walk without a bound ends.** -/
theorem total (visit : α → Entity → Except ε α) (fail : Fault → ε) {start : String}
    (t : ∀ name ∈ names, g.Trail start path name)
    (hb : g.state.entities.size < steps + path.length) (a : α) :
    ∃ r, g.Walks visit fail path names a r := by
  induction steps generalizing path names a with
  | zero =>
    cases names with
    | nil => exact ⟨_, .done⟩
    | cons name names =>
      obtain ⟨k, hk⟩ := (t name List.mem_cons_self).exists_steps hb
      cases hk
  | succ steps ih =>
    induction names generalizing a with
    | nil => exact ⟨_, .done⟩
    | cons name names ihNames =>
      by_cases hn : name ∈ path
      · exact ⟨_, .cycle hn⟩
      cases he : g.entity? name with
      | none => exact ⟨_, .unknown hn he⟩
      | some e =>
        cases hv : visit a e with
        | error x => exact ⟨_, .ended hn he hv⟩
        | ok b =>
          have further : ∀ parent ∈ g.edges name, g.Trail start (name :: path) parent :=
            fun parent hp => (t name List.mem_cons_self).step hn hp
          obtain ⟨_ | c, w⟩ := ih further (by rw [List.length_cons]; omega) b
          · exact ⟨_, .failed hn he hv w⟩
          · obtain ⟨r, w'⟩ := ihNames (fun other ho => t other (List.mem_cons_of_mem name ho)) c
            exact ⟨r, .next hn he hv w w'⟩

/-- With enough steps a bounded walk has the outcome of the walk without a bound. -/
theorem foldlM_eq (hs : Schema.ofCatalog g.config.catalog = .ok g.schema)
    (w : g.Walks visit fail path names a r) (t : ∀ name ∈ names, g.Trail start path name)
    (hb : g.state.entities.size < steps + path.length) :
    names.foldlM (fun a name => g.walkFrom visit fail steps path name a) a = r := by
  induction w generalizing steps with
  | done => rfl
  | @cycle path name names a hn =>
    obtain ⟨steps, rfl⟩ := (t name List.mem_cons_self).exists_steps hb
    rw [List.foldlM_cons, walkFrom_cycle hn]
    rfl
  | @unknown path name names a hn he =>
    obtain ⟨steps, rfl⟩ := (t name List.mem_cons_self).exists_steps hb
    rw [List.foldlM_cons, walkFrom_unknown hn he]
    rfl
  | @ended path name names a e x hn he hv =>
    obtain ⟨steps, rfl⟩ := (t name List.mem_cons_self).exists_steps hb
    rw [List.foldlM_cons, walkFrom_ended hn he hv]
    rfl
  | @failed path name names a e b x hn he hv _ ih =>
    have here := t name List.mem_cons_self
    obtain ⟨steps, rfl⟩ := here.exists_steps hb
    rw [List.foldlM_cons, walkFrom_visited hs hn he hv,
      ih (fun parent hp => here.step hn hp) (by rw [List.length_cons]; omega)]
    rfl
  | @next path name names a e b c r hn he hv _ _ ih ihNames =>
    have here := t name List.mem_cons_self
    obtain ⟨steps, rfl⟩ := here.exists_steps hb
    rw [List.foldlM_cons, walkFrom_visited hs hn he hv,
      ih (fun parent hp => here.step hn hp) (by rw [List.length_cons]; omega)]
    exact ihNames (fun other ho => t other (List.mem_cons_of_mem name ho)) hb

end Walks

/-- **A walk without a bound has one outcome, that of the bounded walk.** -/
theorem walks_iff (hs : Schema.ofCatalog g.config.catalog = .ok g.schema) :
    g.Walks visit fail [] [name] a r ↔ g.walk visit fail name a = r := by
  have first : ∀ other ∈ [name], g.Trail name [] other := fun other ho => by
    rw [List.mem_singleton.1 ho]
    exact .start
  have enough : g.state.entities.size < g.state.entities.size + 1 + ([] : List String).length :=
    Nat.lt_succ_self _
  have outcome {r'} (w : g.Walks visit fail [] [name] a r') : g.walk visit fail name a = r' := by
    rw [← w.foldlM_eq hs first enough, List.foldlM_cons]
    exact (bind_pure _).symm
  refine ⟨outcome, fun h => ?_⟩
  obtain ⟨r', w⟩ := Walks.total visit fail first enough a
  rwa [← h, outcome w]

/-! ### What the outcome says -/

namespace Walks

/-- A walk that ends well has gone along the edges of every name it went to. -/
theorem edges (w : g.Walks visit fail path names a (.ok b)) (hn : name ∈ names) :
    name ∉ path ∧ (∃ e, g.entity? name = some e) ∧
      ∃ c d, g.Walks visit fail (name :: path) (g.edges name) c (.ok d) := by
  generalize hr : Except.ok b = r at w
  induction w with
  | done => cases hn
  | cycle | unknown | ended | failed => cases hr
  | @next path _ names a e c d r h he _ w _ _ ih =>
    rcases List.mem_cons.1 hn with rfl | hn
    · exact ⟨h, ⟨e, he⟩, c, d, w⟩
    · exact ih hn hr

/-- A walk that ends well has gone to every name that inheritance leads to. -/
theorem follow (w : g.Walks visit fail path names a (.ok b)) (hn : name ∈ names) {other : String}
    (h : ReflTransGen g.Inherits name other) : ∃ path' names' c d, path ⊆ path' ∧
      other ∈ names' ∧ g.Walks visit fail path' names' c (.ok d) := by
  induction h with
  | refl => exact ⟨path, names, a, b, List.Subset.refl path, hn, w⟩
  | @tail mid _ _ hp ih =>
    obtain ⟨path', _, _, _, hs, hm, w'⟩ := ih
    obtain ⟨_, _, c, d, w''⟩ := w'.edges hm
    exact ⟨mid :: path', g.edges mid, c, d, List.subset_cons_of_subset mid hs, hp, w''⟩

/-- **A walk that ends well starts at a grounded name.** -/
theorem grounded (w : g.Walks visit fail [] [name] a (.ok b)) : g.Grounded name where
  known h := by
    obtain ⟨_, _, _, _, _, hm, w'⟩ := w.follow List.mem_cons_self h
    exact (w'.edges hm).2.1
  acyclic {other} h cycle := by
    obtain ⟨_, _, _, _, _, hm, w'⟩ := w.follow List.mem_cons_self h
    obtain ⟨_, _, _, _, below⟩ := w'.edges hm
    -- Once around the cycle, the walk would be at a name on its way.
    obtain ⟨mid, first, rest⟩ := TransGen.head'_iff.1 cycle
    obtain ⟨_, _, _, _, hs, hm', w''⟩ := below.follow first rest
    exact (w''.edges hm').1 (hs List.mem_cons_self)

/-- **A fault of a walk is a cycle or an unknown name**, if its visitor ends no walk. -/
theorem fault {x : ε} (w : g.Walks visit fail path names a (.error x))
    (hv : ∀ a e, ∃ b, visit a e = .ok b) (t : ∀ name ∈ names, g.Trail start path name) :
    (∃ path' last, x = fail (.cycle (path' ++ [last])) ∧ g.Loop start path' last) ∨
      ∃ other, x = fail (.undefined .entity other) ∧ ReflTransGen g.Inherits start other ∧
        g.entity? other = none := by
  generalize hr : Except.error x = r at w
  induction w with
  | done => cases hr
  | @cycle path name _ _ hn =>
    cases hr
    exact .inl ⟨path.reverse, name, rfl, (t name List.mem_cons_self).loop hn⟩
  | @unknown _ name _ _ _ he =>
    cases hr
    exact .inr ⟨name, rfl, (t name List.mem_cons_self).reach, he⟩
  | @ended _ _ _ a e _ _ _ hx =>
    obtain ⟨b, hb⟩ := hv a e
    rw [hx] at hb
    cases hb
  | @failed _ name _ _ _ _ _ hn _ _ _ ih =>
    exact ih (fun parent hp => (t name List.mem_cons_self).step hn hp) hr
  | @next _ name _ _ _ _ _ _ _ _ _ _ _ _ ih =>
    exact ih (fun other ho => t other (List.mem_cons_of_mem name ho)) hr

end Walks

/-! ### Inherited lists -/

/-- Gathers an entity's own entries of a list. -/
def gather (list : String) (items : List Item) (e : Entity) : Except Fault (List Item) :=
  .ok (items ++ e.list list)

/-- A walk whose results are read in another way is the walk of the visitor that reads
them so. -/
theorem walkFrom_map {β : Type} {visit' : β → Entity → Except ε β} (f : α → β)
    (h : ∀ a e, visit' (f a) e = (visit a e).map f) (a : α) :
    g.walkFrom visit' fail steps path name (f a) =
      (g.walkFrom visit fail steps path name a).map f := by
  induction steps generalizing path name a with
  | zero => rfl
  | succ steps ih =>
    have row (names : List String) (path : List String) (a : α) :
        names.foldlM (fun b parent => g.walkFrom visit' fail steps path parent b) (f a) =
          (names.foldlM (fun a parent => g.walkFrom visit fail steps path parent a) a).map f := by
      induction names generalizing a with
      | nil => rfl
      | cons parent names ihNames =>
        rw [List.foldlM_cons, List.foldlM_cons, ih]
        cases g.walkFrom visit fail steps path parent a with
        | error x => rfl
        | ok b => exact ihNames b
    rw [walkFrom, walkFrom]
    split
    · rfl
    · split
      · rfl
      · next e _ =>
        rw [h]
        cases visit a e with
        | error x => rfl
        | ok b => exact row _ _ b

/-- The own entries of a list, along entities visited last one first. -/
def gathered (list : String) (es : List Entity) : List Item := es.reverse.flatMap (·.list list)

/-- An inherited list is gathered on a walk. -/
theorem inheritedList_eq_walk (list : String) :
    g.inheritedList name list = g.walk (gather list) id name [] := by
  have visits (es : List Entity) (e : Entity) : gather list (gathered list es) e =
      .ok (gathered list (e :: es)) := by
    simp [gather, gathered]
  have h : g.walk (gather list) id name [] =
      (g.walk (fun es e => .ok (e :: es)) id name []).map (gathered list) :=
    walkFrom_map (gathered list) visits []
  rw [h]
  unfold inheritedList visited
  cases g.walk (fun es e => .ok (e :: es)) id name [] <;> rfl

/-- **Cycles and unknown names are found exactly, and the walk always ends.** -/
theorem inheritedList_exact (hs : Schema.ofCatalog g.config.catalog = .ok g.schema)
    (name list : String) :
    (∀ r, g.Walks (gather list) id [] [name] [] r ↔ g.inheritedList name list = r) ∧
    ((∃ items, g.inheritedList name list = .ok items) ↔ g.Grounded name) ∧
    ∀ fault, g.inheritedList name list = .error fault →
      (∃ path last, fault = .cycle (path ++ [last]) ∧ g.Loop name path last) ∨
        ∃ other, fault = .undefined .entity other ∧ ReflTransGen g.Inherits name other ∧
          g.entity? other = none := by
  have outcome (r) : g.Walks (gather list) id [] [name] [] r ↔ g.inheritedList name list = r := by
    rw [inheritedList_eq_walk]
    exact walks_iff hs
  refine ⟨outcome, ⟨fun ⟨items, h⟩ => ((outcome _).2 h).grounded, fun hn => ?_⟩, fun fault h => ?_⟩
  · refine ⟨(g.lineage name).flatMap (·.list list), ?_⟩
    unfold inheritedList
    rw [hn.visited_eq hs]
    rfl
  · refine ((outcome _).2 h).fault (fun items e => ⟨_, rfl⟩) fun other ho => ?_
    rw [List.mem_singleton.1 ho]
    exact .start

/-- A wolf that belongs to its pack, which belongs to the wolf, inherits nothing. -/
theorem inheritedList_exact_wolf : ∃ g : Engine,
    Schema.ofCatalog g.config.catalog = .ok g.schema ∧
      g.inheritedList "wolf" requireList = .error (.cycle ["wolf", "pack", "wolf"]) ∧
      ¬ g.Grounded "wolf" := by
  obtain ⟨schema, hs⟩ : ∃ schema, Schema.ofCatalog {} = .ok schema := ⟨_, rfl⟩
  let wolf := (Entity.named "wolf").append groupList [.name "pack"]
  let pack := (Entity.named "pack").append groupList [.name "wolf"]
  let g : Engine :=
    { registry := {}
      config := {}
      schema
      state := { entities := .ofList [("wolf", wolf), ("pack", pack)], dice := { seed := 0 } } }
  have cycle : g.inheritedList "wolf" requireList = .error (.cycle ["wolf", "pack", "wolf"]) := by
    cases hs
    rfl
  refine ⟨g, hs, cycle, fun hn => ?_⟩
  obtain ⟨items, h⟩ := (inheritedList_exact hs "wolf" requireList).2.1.2 hn
  rw [cycle] at h
  cases h

end Engine
end Tabletop
