/-
# Mutations: what each comes to

A mutation looks up what it checks, then writes.  A write cannot be refused, and what
is looked up again between two writes was found before and is still there.  So each
mutation has two ways to end (`Mutation.Ending`): it changes the engine as it answers,
after everything was checked, or it leaves the engine as it is (`edit_ending`,
`travel_ending`, `delete_ending`, `recruit_ending`, `insert_ending`).

A recruit gets the first number, counting on from its template, whose name is free
(`CountsTo`); as long as a number is left whose name is free, it is the least one
(`CountsTo.isLeast`).  Names with different numbers differ, so the count comes to an end
unless the names of all numbers are taken (`taken_of_passed`).
-/

import Mathlib.Data.List.Nodup
import Mathlib.Data.List.Perm.Subperm
import Mathlib.Order.Bounds.Basic
import Tabletop.Play.Mutation

namespace Tabletop

variable {g h : Engine} {name : String}

/-! ### Lookups -/

namespace Engine

theorem entity_eq_ok_iff {e : Entity} : g.entity name = .ok e ↔ g.entity? name = some e := by
  unfold entity
  split <;> simp_all

theorem contains_eq_false_iff : g.contains name = false ↔ g.entity? name = none := by
  unfold contains entity?
  rw [Std.ExtTreeMap.contains_eq_isSome_getElem?, Option.isSome_eq_false_iff,
    Option.isNone_iff_eq_none]

theorem checkBounds_eq_ok_iff {c : Coord} : g.checkBounds c = .ok () ↔ g.config.InBounds c := by
  unfold checkBounds
  split <;> simp_all

/-- Names of the entities, each once, are no more than there are entities. -/
theorem length_le_size {names : List String} (hn : names.Nodup)
    (h : ∀ name ∈ names, g.contains name) : names.length ≤ g.state.entities.size := by
  rw [← Std.ExtTreeMap.length_keys]
  refine (hn.subperm fun name hm => ?_).length_le
  exact Std.ExtTreeMap.mem_keys.2 (h name hm)

theorem entity?_store (name other : String) (e : Entity) :
    (g.store name e).entity? other = if name = other then some e else g.entity? other := by
  unfold store entity?
  simp only [Std.ExtTreeMap.getElem?_insert, Std.compare_eq_iff_eq]

/-- Who is there is still there after someone was stored. -/
theorem exists_entity?_store {other : String} {e : Entity} (there : ∃ k, g.entity? other = some k) :
    ∃ k, (g.store name e).entity? other = some k := by
  rw [entity?_store]
  split
  · exact ⟨e, rfl⟩
  · exact there

/-- Who is exchanged is still there, and nobody is new. -/
theorem contains_store {e : Entity} (he : g.entity? name = some e) (e' : Entity) :
    (g.store name e').contains = g.contains := by
  funext other
  rw [Bool.eq_iff_iff, ← Bool.not_eq_false, ← Bool.not_eq_false (g.contains other),
    contains_eq_false_iff, contains_eq_false_iff, entity?_store]
  split
  · next same => simp [← same, he]
  · rfl

/-- Of two entities stored under a name the second one stays. -/
theorem store_store (e e' : Entity) : (g.store name e).store name e' = g.store name e' := by
  have same : (g.state.entities.insert name e).insert name e' = g.state.entities.insert name e' := by
    ext other k
    simp only [Std.ExtTreeMap.getElem?_insert]
    split <;> rfl
  rw [store, store, store, same]

/-- The engine with another table of entities and another board. -/
def withTables (g : Engine) (entities : Std.ExtTreeMap String Entity) (occupancy : Occupancy) :
    Engine := { g with state := { g.state with entities, occupancy } }

end Engine

namespace Mutation

/-- How a mutation ends on an engine: it changes the engine as it answers, or it leaves it
as it is, be it with an answer that says so or with a fault.  It may never end where it is
stuck. -/
inductive Ending {α : Type} (g : Engine) (changes : α → Engine → Prop) (idle : α → Prop)
    (stuck : Prop) : Option (Except Fault α × Engine) → Prop
  | changed {a h} : changes a h → Ending g changes idle stuck (some (.ok a, h))
  | idle {a} : idle a → Ending g changes idle stuck (some (.ok a, g))
  | failed (fault : Fault) : Ending g changes idle stuck (some (.error fault, g))
  | endless : stuck → Ending g changes idle stuck none

/-- A mutation that answers something else than that it left the engine as it is has
changed it. -/
theorem Ending.changes_of_ok {α : Type} {changes : α → Engine → Prop} {idle : α → Prop}
    {stuck : Prop} {a : α} (k : Ending g changes idle stuck (some (.ok a, h))) (busy : ¬ idle a) :
    changes a h := by
  cases k with
  | changed c => exact c
  | idle i => exact absurd i busy

/-! ### Parts -/

section Parts

variable {α : Type} {P : Option (Except Fault α × Engine) → Prop} {goal : Option Coord}

theorem requireKind_bind_apply {category : String} {declared : Schema → String → Bool}
    (h : declared g.schema category) (k : Unit → Run α) :
    (requireKind category declared >>= k) g = k () g :=
  Run.ask_bind_apply (if_pos h)

theorem requireKind_bind_elim {category : String} {declared : Schema → String → Bool}
    {k : Unit → Run α} (failed : ∀ fault, P (some (.error fault, g)))
    (kind : declared g.schema category → P (k () g)) :
    P ((requireKind category declared >>= k) g) := by
  refine Run.ask_bind_elim (fun fault _ => failed fault) fun _ h => kind ?_
  by_contra other
  rw [if_neg other] at h
  cases h

theorem requireInside_bind_apply (h : ∀ c ∈ goal, g.config.InBounds c) (k : Unit → Run α) :
    (requireInside goal >>= k) g = k () g := by
  cases goal with
  | none => rfl
  | some c => exact Run.ask_bind_apply (Engine.checkBounds_eq_ok_iff.2 (h c rfl))

theorem requireInside_bind_elim {k : Unit → Run α} (failed : ∀ fault, P (some (.error fault, g)))
    (inside : (∀ c ∈ goal, g.config.InBounds c) → P (k () g)) :
    P ((requireInside goal >>= k) g) := by
  cases goal with
  | none => exact inside fun _ hc => nomatch hc
  | some c =>
    refine Run.ask_bind_elim (fun fault _ => failed fault) fun _ hb => inside fun c' hc => ?_
    cases hc
    exact Engine.checkBounds_eq_ok_iff.1 hb

theorem mutable_bind_apply {e : Entity} (he : g.entity? name = some e) (hi : e.immutable = false)
    (k : Option Entity → Run α) : (Mutation.mutable name >>= k) g = k (some e) g := by
  rw [Mutation.mutable, bind_assoc, Run.ask_bind_apply (Engine.entity_eq_ok_iff.2 he), pure_bind, hi]
  rfl

/-- Who cannot be changed is found, and put aside. -/
theorem mutable_bind_elim {k : Option Entity → Run α} (failed : ∀ fault, P (some (.error fault, g)))
    (immutable : P (k none g))
    (mutable : ∀ e, g.entity? name = some e → e.immutable = false → P (k (some e) g)) :
    P ((Mutation.mutable name >>= k) g) := by
  rw [Mutation.mutable, bind_assoc]
  refine Run.ask_bind_elim (fun fault _ => failed fault) fun e he => ?_
  rw [pure_bind]
  cases hi : e.immutable with
  | true => exact immutable
  | false => exact mutable e (Engine.entity_eq_ok_iff.1 he) hi

/-- Who is there is changed. -/
theorem modify_bind_apply {e : Entity} (he : g.entity? name = some e) (change : Entity → Entity)
    (k : Unit → Run α) : (modify name change >>= k) g = k () (g.store name (change e)) := by
  rw [modify, bind_assoc, Run.ask_bind_apply (Engine.entity_eq_ok_iff.2 he)]
  rfl

/-- Who is put on the board stands there, and nobody else is moved. -/
theorem place_bind_apply (goal : Option Coord) (k : Unit → Run α) : (place name goal >>= k) g =
    k () (g.withOccupancy (goal.elim g.state.occupancy (g.state.occupancy.place name))) := by
  cases goal <;> rfl

end Parts

/-! ### Names -/

/-- The number of a recruit can be read off its name. -/
theorem recruitName_inj {template : String} {m n : UInt32}
    (e : recruitName template m = recruitName template n) : m = n := by
  have e : Nat.toDigits 10 m.toNat = Nat.toDigits 10 n.toNat := by
    simpa [recruitName, Integer.digits, String.ext_iff] using e
  have hm := Integer.readNatural?_toDigits m.toNat
  rw [e, Integer.readNatural?_toDigits] at hm
  exact (UInt32.toNat_inj.1 (Option.some.inj hm)).symm

/-- Counting on from a number, with 0 after the greatest, the first one that is not taken. -/
inductive CountsTo (taken : UInt32 → Prop) : UInt32 → UInt32 → Prop
  | free {c} : ¬ taken (c + 1) → CountsTo taken c (c + 1)
  | next {c n} : taken (c + 1) → CountsTo taken (c + 1) n → CountsTo taken c n

namespace CountsTo

variable {taken : UInt32 → Prop} {c n : UInt32}

theorem not_taken (k : CountsTo taken c n) : ¬ taken n := by
  induction k with
  | free h => exact h
  | next _ _ ih => exact ih

/-- It is one number. -/
theorem unique {m : UInt32} (k : CountsTo taken c n) (k' : CountsTo taken c m) : n = m := by
  induction k with
  | free h =>
    cases k' with
    | free _ => rfl
    | next h' _ => exact absurd h' h
  | next h _ ih =>
    cases k' with
    | free h' => exact absurd h h'
    | next _ k' => exact ih k'

/-- As long as one is left before the greatest, it is the least above. -/
theorem isLeast (k : CountsTo taken c n) (left : ∃ m, c < m ∧ ¬ taken m) :
    IsLeast {m | c < m ∧ ¬ taken m} n := by
  have least : ∀ m, c < m → ¬ taken m → c < n ∧ n ≤ m := by
    induction k with
    | @free c h =>
      intro m above _
      have := m.toNat_lt
      simp only [UInt32.lt_iff_toNat_lt, UInt32.le_iff_toNat_le, UInt32.toNat_add,
        UInt32.toNat_one] at above ⊢
      omega
    | @next c n h _ ih =>
      intro m above free
      have other : m ≠ c + 1 := fun same => free (same ▸ h)
      obtain ⟨m', above', free'⟩ := left
      have on : c + 1 < m := by
        have := m.toNat_lt
        simp only [ne_eq, ← UInt32.toNat_inj, UInt32.lt_iff_toNat_lt, UInt32.toNat_add,
          UInt32.toNat_one] at above other ⊢
        omega
      obtain ⟨less, le⟩ := ih ⟨m, on, free⟩ m on free
      refine ⟨?_, le⟩
      have := m.toNat_lt
      simp only [UInt32.lt_iff_toNat_lt, UInt32.toNat_add, UInt32.toNat_one] at above less ⊢
      omega
  obtain ⟨m, above, free⟩ := left
  exact ⟨⟨(least m above free).1, k.not_taken⟩, fun m hm => (least m hm.1 hm.2).2⟩

end CountsTo

/-- The name of the recruit with a number is taken. -/
def Taken (g : Engine) (template : String) (n : UInt32) : Prop :=
  g.contains (recruitName template n)

section FreeNames

variable {template : String} {e : Entity}

/-- Nobody has the name that the count comes to. -/
theorem CountsTo.entity?_eq_none {c n : UInt32} (k : CountsTo (Taken g template) c n) :
    g.entity? (recruitName template n) = none :=
  Engine.contains_eq_false_iff.1 (Bool.eq_false_iff.2 k.not_taken)

/-- The count comes to the first number whose name is free, or every number it is given
tries for has a taken name. -/
theorem freeName_cases (he : g.entity? template = some e) (tries : Nat) :
    (∃ n, CountsTo (Taken g template) e.recruited n ∧ freeName template tries g =
        some (.ok (recruitName template n), g.store template { e with recruited := n })) ∨
      freeName template tries g = none ∧
        ∀ i < tries, Taken g template (e.recruited + .ofNat (i + 1)) := by
  induction tries generalizing g e with
  | zero => exact .inr ⟨rfl, fun _ h => nomatch h⟩
  | succ tries ih =>
    let counted : Entity := { e with recruited := e.recruited + 1 }
    let h := g.store template counted
    have there : h.entity? template = some counted := by rw [Engine.entity?_store, if_pos rfl]
    have same : Taken h template = Taken g template := by
      funext n
      rw [Taken, Taken, Engine.contains_store he]
    have step : freeName template (tries + 1) g =
        if h.contains (recruitName template (e.recruited + 1)) then freeName template tries h
        else some (.ok (recruitName template (e.recruited + 1)), h) := by
      rw [freeName, count, bind_assoc, Run.ask_bind_apply (Engine.entity_eq_ok_iff.2 he)]
      show (if h.contains (recruitName template (e.recruited + 1)) then freeName template tries
        else pure (recruitName template (e.recruited + 1)) : Run String) h = _
      split <;> rfl
    rw [step]
    split
    · next taken =>
      have taken : Taken g template (e.recruited + 1) := same ▸ taken
      obtain ⟨n, counts, comes⟩ | ⟨never, passed⟩ := ih there
      · refine .inl ⟨n, .next taken (same ▸ counts), ?_⟩
        rw [comes, Engine.store_store]
      · refine .inr ⟨never, fun i hi => ?_⟩
        cases i with
        | zero => exact taken
        | succ i =>
          have := same ▸ passed i (by omega)
          rw [UInt32.ofNat_add (i + 1) 1]
          rwa [UInt32.add_assoc, UInt32.add_comm 1] at this
    · next free => exact .inl ⟨_, .free (same ▸ free), rfl⟩

/-- Names of more numbers than there are entities are not all taken, unless the names of
all numbers are. -/
theorem taken_of_passed {c : UInt32}
    (passed : ∀ i < g.state.entities.size + 1, Taken g template (c + .ofNat (i + 1))) (n : UInt32) :
    Taken g template n := by
  by_contra free
  -- The number would have come up; so not every number did, and none of them came up twice.
  have few : g.state.entities.size + 1 ≤ (n - c - 1).toNat := by
    by_contra more
    have up : c + .ofNat ((n - c - 1).toNat + 1) = n := by
      rw [UInt32.ofNat_add, UInt32.ofNat_toNat]
      show c + (n - c - 1 + 1) = n
      rw [UInt32.sub_add_cancel, UInt32.add_comm, UInt32.sub_add_cancel]
    exact free (up ▸ passed (n - c - 1).toNat (by omega))
  have below := (n - c - 1).toNat_lt
  have once : ((List.range (g.state.entities.size + 1)).map fun i =>
      recruitName template (c + .ofNat (i + 1))).Nodup := by
    refine List.Nodup.map_on (fun i hi j hj same => ?_) List.nodup_range
    have same := congrArg UInt32.toNat ((UInt32.add_right_inj c).1 (recruitName_inj same))
    rw [List.mem_range] at hi hj
    simp only [UInt32.toNat_ofNat'] at same
    omega
  have := Engine.length_le_size once fun name hname => by
    obtain ⟨i, hi, rfl⟩ := List.mem_map.1 hname
    exact passed i (List.mem_range.1 hi)
  rw [List.length_map, List.length_range] at this
  omega

end FreeNames

/-! ### Recruits -/

end Mutation

namespace Engine

/-- The entities after a recruit of a number joined them. -/
def joined (g : Engine) (template : String) (e : Entity) (n : UInt32) (location : Option Coord)
    (owner : Option String) (list : String) : Std.ExtTreeMap String Entity :=
  let name := recruitName template n
  let template' := { e with recruited := n }
  let entities := g.state.entities.insert template template'
  let entities := entities.insert name (template'.recruit name location)
  match owner with
  | none => entities
  | some owner => entities.modify owner (·.append list [.name name])

/-- Who is who after a recruit joined. -/
theorem getElem?_joined (g : Engine) (template : String) (e : Entity) (n : UInt32)
    (location : Option Coord) (owner : Option String) (list other : String) :
    (g.joined template e n location owner list)[other]? =
      (if recruitName template n = other then
        some (({ e with recruited := n } : Entity).recruit (recruitName template n) location)
      else if template = other then some { e with recruited := n }
      else g.entity? other).map fun k =>
        if owner = some other then k.append list [.name (recruitName template n)] else k := by
  unfold joined
  cases owner with
  | none => simp [Std.ExtTreeMap.getElem?_insert, entity?]
  | some owner =>
    simp only [Std.ExtTreeMap.getElem?_modify, Std.ExtTreeMap.getElem?_insert, entity?,
      Std.compare_eq_iff_eq, Option.some.injEq]
    split
    · next h => subst h; rfl
    · simp

/-- What holds of every entity under its name holds after a recruit joined, if it holds
of the recruit, of its template and of an owner who gets it. -/
theorem forall_joined {P : String → Entity → Prop} {g : Engine}
    (h : ∀ name e, g.entity? name = some e → P name e) {template : String} {e : Entity} {n : UInt32}
    {location : Option Coord} {owner : Option String} {list : String}
    (counted : P template { e with recruited := n })
    (recruited : P (recruitName template n)
      (({ e with recruited := n } : Entity).recruit (recruitName template n) location))
    (enlisted : ∀ o ∈ owner, ∀ k, P o k → P o (k.append list [.name (recruitName template n)])) :
    ∀ other k, (g.joined template e n location owner list)[other]? = some k → P other k := by
  intro other k hk
  rw [getElem?_joined, Option.map_eq_some_iff] at hk
  obtain ⟨kept, hk, rfl⟩ := hk
  have before : P other kept := by
    split at hk
    · next heq =>
      cases hk
      exact heq ▸ recruited
    · split at hk
      · next heq =>
        cases hk
        exact heq ▸ counted
      · exact h other kept hk
  split
  · next howner => exact enlisted other howner kept before
  · exact before

end Engine

namespace Mutation

section Recruits

variable {template : String} {e : Entity} {location : Option Coord} {owner : Option String}

/-- An owner who can have a recruit is there. -/
theorem exists_owner {list : String} (howner : ∀ o ∈ owner, g.schema.isList list ∧
    ∃ k, g.entity? o = some k ∧ k.immutable = false) : ∀ o ∈ owner, ∃ k, g.entity? o = some k := by
  intro o ho
  obtain ⟨_, k, hk, _⟩ := howner o ho
  exact ⟨k, hk⟩

/-- An owner who is there lists a name. -/
theorem enlist_bind_apply {α : Type} (there : ∀ o ∈ owner, ∃ k, g.entity? o = some k)
    (list name : String) (k : Unit → Run α) : (enlist owner list name >>= k) g =
      k () (g.withTables (owner.elim g.state.entities fun o =>
        g.state.entities.modify o (·.append list [.name name])) g.state.occupancy) := by
  cases owner with
  | none => rfl
  | some o =>
    obtain ⟨e, he⟩ := there o rfl
    have same : g.state.entities.insert o (e.append list [.name name]) =
        g.state.entities.modify o (·.append list [.name name]) := by
      ext other k
      rw [Std.ExtTreeMap.getElem?_insert, Std.ExtTreeMap.getElem?_modify]
      split
      · next same =>
        rw [Std.compare_eq_iff_eq] at same
        subst same
        have he : g.state.entities[o]? = some e := he
        rw [he, Option.map_some]
      · rfl
    rw [enlist, modify_bind_apply he, Engine.store, same]
    rfl

/-- **A recruit joins under the name that the count comes to**, or the count never ends. -/
theorem join_cases (he : g.entity? template = some e) (location : Option Coord)
    (there : ∀ o ∈ owner, ∃ k, g.entity? o = some k) (list : String) :
    (∃ n, CountsTo (Taken g template) e.recruited n ∧ join template location owner list g =
        some (.ok (recruitName template n), g.withTables (g.joined template e n location owner list)
          (location.elim g.state.occupancy
            (g.state.occupancy.place (recruitName template n))))) ∨
      join template location owner list g = none ∧ ∀ n, Taken g template n := by
  show (∃ n, _ ∧ (freeName template (g.state.entities.size + 1) >>= _) g = _) ∨
    (freeName template (g.state.entities.size + 1) >>= _) g = none ∧ _
  obtain ⟨n, counts, comes⟩ | ⟨never, passed⟩ := freeName_cases he (g.state.entities.size + 1)
  · refine .inl ⟨n, counts, ?_⟩
    rw [Run.bind_apply_ok comes]
    let counted : Entity := { e with recruited := n }
    let h := g.store template counted
    have still : h.entity? template = some counted := by rw [Engine.entity?_store, if_pos rfl]
    rw [Run.ask_bind_apply (Engine.entity_eq_ok_iff.2 still), place_bind_apply]
    let m := (h.withOccupancy (location.elim g.state.occupancy
      (g.state.occupancy.place (recruitName template n)))).store (recruitName template n)
        (counted.recruit (recruitName template n) location)
    show (enlist owner list (recruitName template n) >>= _) m = _
    have stays : ∀ o ∈ owner, ∃ k, m.entity? o = some k := fun o ho => by
      have : ∃ k, h.entity? o = some k := Engine.exists_entity?_store (there o ho)
      exact Engine.exists_entity?_store this
    rw [enlist_bind_apply stays]
    cases owner <;> rfl
  · exact .inr ⟨Run.bind_apply_none never, taken_of_passed passed⟩

/-- An owner who can have a recruit has such a list, is there, and can be changed. -/
theorem admits_bind_apply {α : Type} {list : String} (howner : ∀ o ∈ owner, g.schema.isList list ∧
    ∃ k, g.entity? o = some k ∧ k.immutable = false) (k : Bool → Run α) :
    (admits owner list >>= k) g = k true g := by
  cases owner with
  | none => rfl
  | some o =>
    obtain ⟨listed, e, he, hi⟩ := howner o rfl
    rw [admits, bind_assoc, requireKind_bind_apply listed, bind_assoc,
      Run.ask_bind_apply (Engine.entity_eq_ok_iff.2 he), pure_bind, hi]
    rfl

theorem admits_bind_elim {α : Type} {P : Option (Except Fault α × Engine) → Prop} {list : String}
    {k : Bool → Run α} (failed : ∀ fault, P (some (.error fault, g))) (refused : P (k false g))
    (admitted : (∀ o ∈ owner, g.schema.isList list ∧
      ∃ k, g.entity? o = some k ∧ k.immutable = false) → P (k true g)) :
    P ((admits owner list >>= k) g) := by
  cases owner with
  | none => exact admitted fun _ h => nomatch h
  | some o =>
    rw [admits, bind_assoc]
    refine requireKind_bind_elim failed fun listed => ?_
    rw [bind_assoc]
    refine Run.ask_bind_elim (fun fault _ => failed fault) fun e he => ?_
    rw [pure_bind]
    cases hi : e.immutable with
    | true => exact refused
    | false =>
      refine admitted fun _ h => ?_
      cases h
      exact ⟨listed, e, Engine.entity_eq_ok_iff.1 he, hi⟩

/-- **A recruit joins after everything was checked**, or nothing is changed; only where the
names of all numbers are taken there is no end. -/
theorem recruit_ending (g : Engine) (template : String) (location : Option Coord)
    (owner list : Option String) :
    Ending g (fun name h => ∃ e n, g.entity? template = some e ∧
        (∀ o ∈ owner, g.schema.isList (list.getD unitsList) ∧
          ∃ k, g.entity? o = some k ∧ k.immutable = false) ∧
        (∀ c ∈ location, g.config.InBounds c) ∧
        CountsTo (Taken g template) e.recruited n ∧ name = some (recruitName template n) ∧
        h = g.withTables (g.joined template e n location owner (list.getD unitsList))
          (location.elim g.state.occupancy (g.state.occupancy.place (recruitName template n))))
      (· = none) (∀ n, Taken g template n) (recruit template location owner list g) := by
  unfold recruit
  refine Run.ask_bind_elim (fun fault _ => .failed fault) fun e he => ?_
  rw [Engine.entity_eq_ok_iff] at he
  refine admits_bind_elim .failed (.idle rfl) fun howner => ?_
  refine requireInside_bind_elim .failed fun inside => ?_
  obtain ⟨n, counts, comes⟩ | ⟨never, taken⟩ :=
    join_cases he location (exists_owner howner) (list.getD unitsList)
  · rw [Run.bind_apply_ok comes]
    exact .changed ⟨e, n, he, howner, inside, counts, rfl, rfl⟩
  · rw [Run.bind_apply_none never]
    exact .endless taken

/-- Someone is recruited exactly if the template exists, its owner can have the recruit,
and the location is on the board. -/
theorem recruit_eq_ok_some_iff {list : Option String} {name : String} :
    recruit template location owner list g = some (.ok (some name), h) ↔
      ∃ e n, g.entity? template = some e ∧
        (∀ o ∈ owner, g.schema.isList (list.getD unitsList) ∧
          ∃ k, g.entity? o = some k ∧ k.immutable = false) ∧
        (∀ c ∈ location, g.config.InBounds c) ∧
        CountsTo (Taken g template) e.recruited n ∧ recruitName template n = name ∧
        g.withTables (g.joined template e n location owner (list.getD unitsList))
          (location.elim g.state.occupancy (g.state.occupancy.place name)) = h := by
  constructor
  · intro k
    have ending := recruit_ending g template location owner list
    rw [k] at ending
    obtain ⟨e, n, he, howner, inside, counts, same, rfl⟩ := ending.changes_of_ok nofun
    cases same
    exact ⟨e, n, he, howner, inside, counts, rfl, rfl⟩
  · rintro ⟨e, n, he, howner, inside, counts, rfl, rfl⟩
    rw [recruit, Run.ask_bind_apply (Engine.entity_eq_ok_iff.2 he), admits_bind_apply howner]
    show (requireInside location >>= _) g = _
    rw [requireInside_bind_apply inside]
    obtain ⟨m, counts', comes⟩ | ⟨_, taken⟩ :=
      join_cases he location (exists_owner howner) (list.getD unitsList)
    · rw [Run.bind_apply_ok comes, counts'.unique counts]
      rfl
    · exact absurd (taken n) counts.not_taken

end Recruits

/-! ### Mutations -/

/-- **An entity is added after everything was checked**, or nothing is changed. -/
theorem insert_ending (g : Engine) (e : Entity) :
    Ending g (fun _ h => g.entity? e.name = none ∧ g.schema.validate e = .ok () ∧
        (∀ c ∈ e.location, g.config.InBounds c) ∧
          h = g.withTables (g.state.entities.insert e.name e)
            (e.location.elim g.state.occupancy (g.state.occupancy.place e.name)))
      (fun _ => False) False (insert e g) := by
  unfold insert
  refine Run.ask_bind_elim (fun fault _ => .failed fault) fun _ free => ?_
  refine Run.ask_bind_elim (fun fault _ => .failed fault) fun _ valid => ?_
  refine requireInside_bind_elim .failed fun inside => ?_
  rw [place_bind_apply]
  refine .changed ⟨?_, ?_, inside, rfl⟩
  · rw [← Engine.contains_eq_false_iff]
    cases taken : g.contains e.name with
    | false => rfl
    | true => simp [taken] at free
  · cases hv : g.schema.validate e with
    | ok _ => rfl
    | error cause => simp [hv, Except.mapError] at valid

/-- An entity is added exactly if its name is free and it fits the game. -/
theorem insert_eq_ok_iff {e : Entity} : insert e g = some (.ok (), h) ↔
    g.entity? e.name = none ∧ g.schema.validate e = .ok () ∧
      (∀ c ∈ e.location, g.config.InBounds c) ∧
        g.withTables (g.state.entities.insert e.name e)
          (e.location.elim g.state.occupancy (g.state.occupancy.place e.name)) = h := by
  constructor
  · intro k
    have ending := insert_ending g e
    rw [k] at ending
    obtain ⟨free, valid, inside, rfl⟩ := ending.changes_of_ok id
    exact ⟨free, valid, inside, rfl⟩
  · rintro ⟨free, valid, inside, rfl⟩
    have free : g.contains e.name = false := Engine.contains_eq_false_iff.2 free
    have valid : (g.schema.validate e).mapError Fault.catalog = .ok () := by rw [valid]; rfl
    rw [insert, requireFree, Run.ask_bind_apply (if_neg (by simp [free])), requireValid,
      Run.ask_bind_apply valid, requireInside_bind_apply inside, place_bind_apply]
    rfl

/-- **An entity is edited after everything was checked**, or nothing is changed. -/
theorem edit_ending (g : Engine) (name category : String) (declared : Schema → String → Bool)
    (change : Entity → Except Fault (Option Entity)) :
    Ending g (fun b h => b = true ∧ declared g.schema category ∧
        ∃ e e', g.entity? name = some e ∧ e.immutable = false ∧ change e = .ok (some e') ∧
          h = g.withTables (g.state.entities.insert name e') g.state.occupancy)
      (· = false) False (edit name category declared change g) := by
  unfold edit
  refine requireKind_bind_elim .failed fun kind => ?_
  refine mutable_bind_elim .failed (.idle rfl) fun e he hi => ?_
  refine Run.ask_bind_elim (fun fault _ => .failed fault) fun o ho => ?_
  cases o with
  | none => exact .idle rfl
  | some e' => exact .changed ⟨rfl, kind, e, e', he, hi, ho, rfl⟩

/-- An edit changes something exactly if there is such a category, the entity can be changed
and there is a changed one, which is then stored. -/
theorem edit_eq_ok_true_iff {category : String} {declared : Schema → String → Bool}
    {change : Entity → Except Fault (Option Entity)} :
    edit name category declared change g = some (.ok true, h) ↔ declared g.schema category ∧
      ∃ e e', g.entity? name = some e ∧ e.immutable = false ∧ change e = .ok (some e') ∧
        g.withTables (g.state.entities.insert name e') g.state.occupancy = h := by
  constructor
  · intro k
    have ending := edit_ending g name category declared change
    rw [k] at ending
    obtain ⟨_, kind, e, e', he, hi, hc, rfl⟩ := ending.changes_of_ok nofun
    exact ⟨kind, e, e', he, hi, hc, rfl⟩
  · rintro ⟨kind, e, e', he, hi, hc, rfl⟩
    rw [edit, requireKind_bind_apply kind, mutable_bind_apply he hi]
    exact Run.ask_bind_apply (f := fun _ => change e) hc

/-- Something is appended exactly if there is such a list and the entity can be changed. -/
theorem appendItem_eq_ok_true_iff {list : String} {item : Item} :
    appendItem name list item g = some (.ok true, h) ↔ g.schema.isList list ∧
      ∃ e, g.entity? name = some e ∧ e.immutable = false ∧
        g.withTables (g.state.entities.insert name (e.append list [item])) g.state.occupancy =
          h := by
  rw [appendItem, edit_eq_ok_true_iff]
  simp

/-- **An entity travels after everything was checked**, or nothing is changed. -/
theorem travel_ending (g : Engine) (name : String) (goal : Option Coord) :
    Ending g (fun b h => b = true ∧ ∃ e, g.entity? name = some e ∧ e.immutable = false ∧
        (∀ c ∈ goal, g.config.InBounds c) ∧
          h = g.withTables (g.state.entities.insert name { e with location := goal })
            (g.state.occupancy.move name goal))
      (· = false) False (travel name goal g) := by
  unfold travel
  refine mutable_bind_elim .failed (.idle rfl) fun e he hi => ?_
  refine requireInside_bind_elim .failed fun inside => ?_
  -- The board is written first, and the entity is still there.
  let moved := g.withOccupancy (g.state.occupancy.move name goal)
  have there : moved.entity? name = some e := he
  show Ending g _ _ _ ((modify name _ >>= _) moved)
  rw [modify_bind_apply there]
  exact .changed ⟨rfl, e, he, hi, inside, rfl⟩

/-- **An entity is deleted after it was checked**, or nothing is changed. -/
theorem delete_ending (g : Engine) (name : String) :
    Ending g (fun b h => b = true ∧ ∃ e, g.entity? name = some e ∧ e.immutable = false ∧
        h = g.withTables (g.state.entities.erase name) (g.state.occupancy.remove name))
      (· = false) False (delete name g) := by
  unfold delete
  refine mutable_bind_elim .failed (.idle rfl) fun e he hi => ?_
  exact .changed ⟨rfl, e, he, hi, rfl⟩

end Mutation
end Tabletop
