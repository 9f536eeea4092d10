/-
# Inventory: the scripts a game holds

Scripts travel: a text is compiled into the table of compiled texts, and the script
goes on into lists of entities, into values, into what a scope has stored, into
delays that wait, and with the state into the frames.  The inventory of each of
these lists the scripts in it (`Value.scripts`, `Entity.scripts`, …,
`Engine.scripts`).

Things are compared by the texts of their scripts.  If all scripts come from a
collection in which a text has one script (`Legible`), what compares equal is the
same (`State.eq_of_texts`).
-/

import Tabletop.Engine.History

namespace Tabletop

variable {S : Script → Prop}

/-! ### Inventories -/

mutual

/-- The scripts in a value. -/
def Value.scripts : Value → List Script
  | .script s => [s]
  | .list items | .tuple items => Value.scriptsAll items
  | _ => []

/-- The scripts in several values. -/
def Value.scriptsAll : List Value → List Script
  | [] => []
  | v :: vs => v.scripts ++ Value.scriptsAll vs

end

/-- The scripts in a list of an entity. -/
def Item.scripts (items : List Item) : List Script := items.filterMap (·.script?)

/-- The scripts in the lists of an entity. -/
def Entity.scripts (e : Entity) : List Script :=
  e.lists.toList.flatMap fun (_, items) => Item.scripts items.toList

/-- The scripts in what a scope has stored. -/
def Scope.scripts (scope : Scope) : List Script :=
  scope.storage.toList.flatMap fun (_, v) => v.scripts

/-- The script a callback is, if it is one. -/
def Callback.scripts : Callback → List Script
  | .script s => [s]
  | .entity _ => []

/-- The scripts in a delay. -/
def Delay.scripts (d : Delay) : List Script := d.callback.scripts ++ d.scope.scripts

/-- The scripts in a state: those of its entities and of the delays that wait. -/
def State.scripts (s : State) : List Script :=
  s.entities.toList.flatMap (fun (_, e) => e.scripts) ++ s.delays.toList.flatMap (·.scripts)

/-- The scripts in an engine: those it has compiled, and those of its state and its
frames. -/
def Engine.scripts (g : Engine) : List Script :=
  g.cache.toList.map (·.2) ++ (g.state :: g.frames).flatMap (·.scripts)

/-! ### Scripts from a collection -/

/-- All scripts in a value are from a collection. -/
def Value.From (S : Script → Prop) (v : Value) : Prop := ∀ s ∈ v.scripts, S s

/-- The script an entry is, if it is one, is from a collection. -/
def Item.From (S : Script → Prop) (item : Item) : Prop := ∀ s ∈ item.script?, S s

/-- All scripts in an entity are from a collection. -/
def Entity.From (S : Script → Prop) (e : Entity) : Prop := ∀ s ∈ e.scripts, S s

/-- All scripts in a scope are from a collection. -/
def Scope.From (S : Script → Prop) (scope : Scope) : Prop := ∀ s ∈ scope.scripts, S s

/-- All scripts in a delay are from a collection. -/
def Delay.From (S : Script → Prop) (d : Delay) : Prop := ∀ s ∈ d.scripts, S s

/-- All scripts in a state are from a collection. -/
def State.From (S : Script → Prop) (s : State) : Prop := ∀ t ∈ s.scripts, S t

namespace Value

theorem mem_scriptsAll {s : Script} {vs : List Value} :
    s ∈ scriptsAll vs ↔ ∃ v ∈ vs, s ∈ v.scripts := by
  induction vs with
  | nil => simp [scriptsAll]
  | cons v vs ih => simp [scriptsAll, ih]

@[simp]
theorem from_list {items : List Value} : (list items).From S ↔ ∀ v ∈ items, v.From S := by
  simp only [From, scripts, mem_scriptsAll]
  grind

@[simp]
theorem from_tuple {items : List Value} : (tuple items).From S ↔ ∀ v ∈ items, v.From S :=
  from_list

@[simp]
theorem from_script {s : Script} : (script s).From S ↔ S s := by simp [From, scripts]

@[simp]
theorem from_none : Value.none.From S := by simp [From, scripts]

@[simp]
theorem from_bool (b : Bool) : (bool b).From S := by simp [From, scripts]

@[simp]
theorem from_int (n : Int) : (int n).From S := by simp [From, scripts]

@[simp]
theorem from_str (text : String) : (str text).From S := by simp [From, scripts]

@[simp]
theorem from_ref (text : String) : (ref text).From S := by simp [From, scripts]

theorem from_elim {α : Type} {f : α → Value} (h : ∀ a, (f a).From S) (o : Option α) :
    (o.elim .none f).From S := by
  cases o with
  | none => exact from_none
  | some a => exact h a

/-- Literals hold no scripts. -/
@[simp]
theorem from_ofLiteral (l : Literal) : (ofLiteral l).From S := by
  cases l <;> simp [ofLiteral]

end Value

namespace Item

@[simp]
theorem from_name (text : String) : (name text).From S := fun _ h => nomatch h

@[simp]
theorem from_script {s : Script} : (script s).From S ↔ S s := by simp [From, script?]

@[simp]
theorem from_toValue {item : Item} : item.toValue.From S ↔ item.From S := by
  cases item <;> simp [toValue]

/-- An entry holds the scripts of the value it is made of. -/
theorem from_ofValue {v : Value} {item : Item} (h : ofValue v = .ok item) (hv : v.From S) :
    item.From S := by
  unfold ofValue at h
  split at h <;> cases h <;> simp_all

theorem from_scripts {items : List Item} :
    (∀ s ∈ scripts items, S s) ↔ ∀ item ∈ items, item.From S := by
  simp only [scripts, List.mem_filterMap, From, Option.mem_def]
  grind

end Item

/-- What holds of the rows of a table. -/
theorem forall_mem_toList {α : Type} {t : Std.ExtTreeMap String α} {P : String × α → Prop} :
    (∀ row ∈ t.toList, P row) ↔ ∀ (name : String) (a : α), t[name]? = some a → P (name, a) := by
  simp only [Prod.forall, Std.ExtTreeMap.mem_toList_iff_getElem?_eq_some]

namespace Entity

variable {e : Entity}

/-- The entries of a list that an entity has. -/
theorem list_eq_of_getElem? {list : String} {items : Series Item} (h : e.lists[list]? = some items) :
    e.list list = items.toList := by
  rw [Entity.list, Std.ExtTreeMap.getD_eq_getD_getElem?, h]
  rfl

/-- An entity holds the scripts in its lists. -/
theorem from_iff : e.From S ↔ ∀ list, ∀ item ∈ e.list list, item.From S := by
  simp only [From, scripts, List.forall_mem_flatMap, Item.from_scripts, forall_mem_toList]
  constructor
  · intro h list item hi
    cases hl : e.lists[list]? with
    | none =>
      rw [Entity.list, Std.ExtTreeMap.getD_eq_getD_getElem?, hl] at hi
      cases hi
    | some items => exact h list items hl item (list_eq_of_getElem? hl ▸ hi)
  · intro h list items hl
    exact list_eq_of_getElem? hl ▸ h list

end Entity

namespace Scope

variable {scope : Scope}

theorem from_iff : scope.From S ↔
    ∀ (name : String) (v : Value), scope.storage[name]? = some v → v.From S := by
  unfold From scripts
  rw [List.forall_mem_flatMap, forall_mem_toList]
  rfl

/-- A scope that has stored nothing holds no scripts. -/
@[simp]
theorem from_empty (bindings : Bindings) : ({ bindings } : Scope).From S := by
  simp [from_iff]

theorem From.bind (h : scope.From S) (bindings : Bindings) : { scope with bindings }.From S := h

theorem From.stored (h : scope.From S) (name : String) : (scope.stored name).From S := by
  unfold Scope.stored
  rw [Std.ExtTreeMap.getD_eq_getD_getElem?]
  cases hv : scope.storage[name]? with
  | none => exact Value.from_none
  | some v => exact from_iff.1 h name v hv

theorem From.store (h : scope.From S) (name : String) {v : Value} (hv : v.From S) :
    (scope.store name v).From S := by
  rw [from_iff] at h ⊢
  intro other w hw
  unfold Scope.store at hw
  rw [Std.ExtTreeMap.getElem?_insert] at hw
  split at hw
  · cases hw
    exact hv
  · exact h other w hw

end Scope

theorem Delay.from_iff {d : Delay} :
    d.From S ↔ (∀ s ∈ d.callback.scripts, S s) ∧ d.scope.From S := List.forall_mem_append

theorem State.from_iff {s : State} : s.From S ↔
    (∀ (name : String) (e : Entity), s.entities[name]? = some e → e.From S) ∧
      ∀ d ∈ s.delays.toList, d.From S := by
  unfold From scripts
  rw [List.forall_mem_append, List.forall_mem_flatMap, List.forall_mem_flatMap, forall_mem_toList]
  rfl

/-- What an engine holds: compiled texts, and what its state and its frames hold. -/
theorem Engine.forall_mem_scripts {g : Engine} : (∀ s ∈ g.scripts, S s) ↔
    (∀ (raw : String) (s : Script), g.cache[raw]? = some s → S s) ∧
      ∀ s ∈ g.state :: g.frames, s.From S := by
  unfold scripts
  rw [List.forall_mem_append, List.forall_mem_flatMap, List.forall_mem_map, forall_mem_toList]
  rfl

/-! ### Equality by texts -/

/-- A collection in which a text has one script. -/
def Legible (S : Script → Prop) : Prop := ∀ ⦃s t⦄, S s → S t → s.raw = t.raw → s = t

/-- Lists are equal if they compare equal and items that do are equal. -/
theorem eq_of_beq_list {α : Type} [BEq α] {as bs : List α} (h : (as == bs) = true)
    (items : ∀ a ∈ as, ∀ b ∈ bs, (a == b) = true → a = b) : as = bs := by
  induction as generalizing bs with
  | nil => cases bs <;> simp_all
  | cons a as ih =>
    cases bs with
    | nil => simp at h
    | cons b bs =>
      rw [List.cons_beq_cons, Bool.and_eq_true] at h
      have first := items a List.mem_cons_self b List.mem_cons_self h.1
      have rest := ih h.2 fun a ha b hb =>
        items a (List.mem_cons_of_mem _ ha) b (List.mem_cons_of_mem _ hb)
      rw [first, rest]

/-- Series are equal if they compare equal and entries that do are equal. -/
theorem Series.eq_of_entries {α : Type} [BEq α] {a b : Series α} (h : (a == b) = true)
    (entries : ∀ x ∈ a.toList, ∀ y ∈ b.toList, (x == y) = true → x = y) : a = b := by
  have backward : a.backward = b.backward := eq_of_beq_list h fun x hx y hy =>
    entries x (List.mem_reverse.2 hx) y (List.mem_reverse.2 hy)
  exact congrArg mk backward

/-- Tables are equal if they compare equal entry by entry and entries that do are equal. -/
theorem eq_of_beq_toList {α : Type} [BEq α] {t u : Std.ExtTreeMap String α}
    (h : (t.toList == u.toList) = true)
    (entries : ∀ (name name' : String) (a b : α), t[name]? = some a → u[name']? = some b →
      (a == b) = true → a = b) : t = u := by
  refine Std.ExtTreeMap.toList_inj.1 (eq_of_beq_list h fun (name, a) ha (name', b) hb same => ?_)
  rw [Std.ExtTreeMap.mem_toList_iff_getElem?_eq_some] at ha hb
  obtain ⟨names, values⟩ := (Bool.and_eq_true _ _).mp same
  rw [beq_iff_eq.1 names, entries name name' a b ha hb values]

/-! Where a text has one script, what compares equal is equal. -/

theorem Script.eq_of_texts (hS : Legible S) {s t : Script} (h : (s == t) = true) (hs : S s)
    (ht : S t) : s = t := hS hs ht (beq_iff_eq (α := String).1 h)

mutual

/-- Values that compare equal are equal. -/
theorem Value.eq_of_texts (hS : Legible S) :
    ∀ a b : Value, a.beq b = true → a.From S → b.From S → a = b
  | .none, b, h, _, _ => by cases b <;> simp_all [beq]
  | .bool _, b, h, _, _ => by cases b <;> simp_all [beq]
  | .int _, b, h, _, _ => by cases b <;> simp_all [beq]
  | .str _, b, h, _, _ => by cases b <;> simp_all [beq]
  | .ref _, b, h, _, _ => by cases b <;> simp_all [beq]
  | .list as, b, h, ha, hb => by
    cases b with
    | list bs =>
      rw [beq] at h
      rw [Value.eq_of_textsAll hS as bs h (from_list.1 ha) (from_list.1 hb)]
    | _ => simp [beq] at h
  | .tuple as, b, h, ha, hb => by
    cases b with
    | tuple bs =>
      rw [beq] at h
      rw [Value.eq_of_textsAll hS as bs h (from_tuple.1 ha) (from_tuple.1 hb)]
    | _ => simp [beq] at h
  | .script s, b, h, ha, hb => by
    cases b with
    | script t =>
      rw [beq] at h
      rw [Script.eq_of_texts hS h (from_script.1 ha) (from_script.1 hb)]
    | _ => simp [beq] at h

/-- Rows of values that compare equal are equal. -/
theorem Value.eq_of_textsAll (hS : Legible S) : ∀ as bs : List Value, beqAll as bs = true →
    (∀ v ∈ as, v.From S) → (∀ v ∈ bs, v.From S) → as = bs
  | [], bs, h, _, _ => by cases bs <;> simp_all [beqAll]
  | a :: as, [], h, _, _ => by simp [beqAll] at h
  | a :: as, b :: bs, h, ha, hb => by
    rw [beqAll, Bool.and_eq_true] at h
    rw [List.forall_mem_cons] at ha hb
    rw [Value.eq_of_texts hS a b h.1 ha.1 hb.1, Value.eq_of_textsAll hS as bs h.2 ha.2 hb.2]

end

theorem Item.eq_of_texts (hS : Legible S) {a b : Item} (h : (a == b) = true) (ha : a.From S)
    (hb : b.From S) : a = b := by
  cases a <;> cases b
  · rw [beq_iff_eq (α := String).1 h]
  · cases h
  · cases h
  · rw [Script.eq_of_texts hS h (from_script.1 ha) (from_script.1 hb)]

/-- Entities that compare equal are equal. -/
theorem Entity.eq_of_texts (hS : Legible S) {a b : Entity} (h : (a == b) = true) (ha : a.From S)
    (hb : b.From S) : a = b := by
  have h : (a.name == b.name && a.location == b.location && a.immutable == b.immutable &&
    a.stats.toList == b.stats.toList && a.lists.toList == b.lists.toList &&
    a.strings.toList == b.strings.toList && a.recruited == b.recruited) = true := h
  simp only [Bool.and_eq_true, beq_iff_eq, Std.ExtTreeMap.toList_inj] at h
  obtain ⟨⟨⟨⟨⟨⟨name, location⟩, immutable⟩, stats⟩, lists⟩, strings⟩, recruited⟩ := h
  have lists : a.lists = b.lists := by
    refine eq_of_beq_toList lists fun list list' items items' hl hl' same => ?_
    refine Series.eq_of_entries same fun item hi item' hi' same => ?_
    refine Item.eq_of_texts hS same (from_iff.1 ha list item ?_) (from_iff.1 hb list' item' ?_)
    · rwa [list_eq_of_getElem? hl]
    · rwa [list_eq_of_getElem? hl']
  cases a
  cases b
  simp_all

theorem Scope.eq_of_texts (hS : Legible S) {a b : Scope} (h : (a == b) = true) (ha : a.From S)
    (hb : b.From S) : a = b := by
  have h : (a.bindings == b.bindings && a.storage.toList == b.storage.toList) = true := h
  rw [Bool.and_eq_true, beq_iff_eq] at h
  have storage : a.storage = b.storage :=
    eq_of_beq_toList h.2 fun name name' v w hv hw same =>
      Value.eq_of_texts hS v w same (from_iff.1 ha name v hv) (from_iff.1 hb name' w hw)
  cases a
  cases b
  simp_all

theorem Callback.eq_of_texts (hS : Legible S) {a b : Callback} (h : (a == b) = true)
    (ha : ∀ s ∈ a.scripts, S s) (hb : ∀ s ∈ b.scripts, S s) : a = b := by
  cases a <;> cases b
  · rw [Script.eq_of_texts hS h (ha _ List.mem_cons_self) (hb _ List.mem_cons_self)]
  · cases h
  · cases h
  · rw [beq_iff_eq (α := String).1 h]

theorem Delay.eq_of_texts (hS : Legible S) {a b : Delay} (h : (a == b) = true) (ha : a.From S)
    (hb : b.From S) : a = b := by
  have h : (a.ticks == b.ticks && (a.callback == b.callback && a.scope == b.scope)) = true := h
  rw [Bool.and_eq_true, Bool.and_eq_true, beq_iff_eq] at h
  obtain ⟨ticks, callback, scope⟩ := h
  have callback := Callback.eq_of_texts hS callback (from_iff.1 ha).1 (from_iff.1 hb).1
  have scope := Scope.eq_of_texts hS scope (from_iff.1 ha).2 (from_iff.1 hb).2
  cases a
  cases b
  simp_all

/-- **States that compare equal are equal**, if their scripts are from a collection in
which a text has one script. -/
theorem State.eq_of_texts (hS : Legible S) {a b : State} (h : (a == b) = true) (ha : a.From S)
    (hb : b.From S) : a = b := by
  have h : (a.time == b.time && a.entities.toList == b.entities.toList &&
    a.occupancy == b.occupancy && a.delays == b.delays && a.dice == b.dice &&
    a.log == b.log) = true := h
  simp only [Bool.and_eq_true, beq_iff_eq] at h
  obtain ⟨⟨⟨⟨⟨time, entities⟩, occupancy⟩, delays⟩, dice⟩, log⟩ := h
  rw [from_iff] at ha hb
  have entities : a.entities = b.entities :=
    eq_of_beq_toList entities fun name name' e e' he he' same =>
      Entity.eq_of_texts hS same (ha.1 name e he) (hb.1 name' e' he')
  have delays : a.delays = b.delays :=
    Series.eq_of_entries delays fun d hd d' hd' same =>
      Delay.eq_of_texts hS same (ha.2 d hd) (hb.2 d' hd')
  cases a
  cases b
  simp_all

end Tabletop
