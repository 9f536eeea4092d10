/-
# Memory: what an engine has compiled and recorded

An engine remembers the texts it has compiled and the states it has recorded.
Nothing it looks up for a script depends on that: with another memory
(`Engine.withMemory`) every reading gives the same (`resolve_withMemory`,
`Query.answer_withMemory`).  And whatever is looked up has its scripts from the
state (`resolve_from`, `Query.answer_from`).
-/

import Tabletop.Proofs.Inventory
import Tabletop.Proofs.WellFormed

namespace Tabletop

variable {S : Script → Prop}

namespace Engine

/-- The engine with other texts compiled and another history. -/
def withMemory (g : Engine) (cache : Std.ExtTreeMap String Script) (history : History) : Engine :=
  { g with cache, history }

/-- The engine with another state. -/
def withState (g : Engine) (state : State) : Engine := { g with state }

section

variable (g : Engine) (c : Std.ExtTreeMap String Script) (H : History)

/-! ### Lookups -/

@[simp]
theorem registry_withMemory : (g.withMemory c H).registry = g.registry := rfl

@[simp]
theorem config_withMemory : (g.withMemory c H).config = g.config := rfl

@[simp]
theorem schema_withMemory : (g.withMemory c H).schema = g.schema := rfl

@[simp]
theorem state_withMemory : (g.withMemory c H).state = g.state := rfl

@[simp]
theorem withMemory_self : g.withMemory g.cache g.history = g := rfl

@[simp]
theorem entity?_withMemory (name : String) : (g.withMemory c H).entity? name = g.entity? name := rfl

@[simp]
theorem entity_withMemory (name : String) : (g.withMemory c H).entity name = g.entity name := rfl

@[simp]
theorem contains_withMemory : (g.withMemory c H).contains = g.contains := rfl

@[simp]
theorem checkBounds_withMemory (l : Coord) : (g.withMemory c H).checkBounds l = g.checkBounds l := rfl

mutual

@[simp]
theorem select_withMemory : ∀ s : Selector, (g.withMemory c H).select s = g.select s
  | .nobody | .entity _ | .standing _ => rfl
  | .many items => selectAll_withMemory items

@[simp]
theorem selectAll_withMemory : ∀ ss : List Selector, (g.withMemory c H).selectAll ss = g.selectAll ss
  | [] => rfl
  | s :: ss => by rw [selectAll, selectAll, select_withMemory s, selectAll_withMemory ss]

end

@[simp]
theorem walkFrom_withMemory {α ε : Type} (visit : α → Entity → Except ε α) (fail : Fault → ε)
    (steps : Nat) (path : List String) (name : String) (a : α) :
    (g.withMemory c H).walkFrom visit fail steps path name a =
      g.walkFrom visit fail steps path name a := by
  induction steps generalizing path name a with
  | zero => rfl
  | succ steps ih =>
    simp only [walkFrom, ih]
    rfl

@[simp]
theorem walk_withMemory {α ε : Type} (visit : α → Entity → Except ε α) (fail : Fault → ε)
    (name : String) (a : α) : (g.withMemory c H).walk visit fail name a = g.walk visit fail name a :=
  walkFrom_withMemory g c H visit fail _ [] name a

@[simp]
theorem statTotal_withMemory (name stat : String) :
    (g.withMemory c H).statTotal name stat = g.statTotal name stat := by
  simp [statTotal]

@[simp]
theorem visited_withMemory (name : String) : (g.withMemory c H).visited name = g.visited name := by
  simp [visited]

@[simp]
theorem inheritedList_withMemory (name list : String) :
    (g.withMemory c H).inheritedList name list = g.inheritedList name list := by
  simp [inheritedList]

@[simp]
theorem inheritedString_withMemory (name string : String) :
    (g.withMemory c H).inheritedString name string = g.inheritedString name string := by
  simp [inheritedString]

@[simp]
theorem inheritedScripts_withMemory (name list : String) :
    (g.withMemory c H).inheritedScripts name list = g.inheritedScripts name list := by
  simp [inheritedScripts]

@[simp]
theorem stat_withMemory (name category : String) :
    (g.withMemory c H).stat name category = g.stat name category := by
  simp [stat]

@[simp]
theorem follow_withMemory : (g.withMemory c H).follow = g.follow := by
  funext current category
  simp [follow]

mutual

/-- **A value means the same with any memory.** -/
@[simp]
theorem resolve_withMemory : ∀ v : Value, (g.withMemory c H).resolve v = g.resolve v
  | .none | .bool _ | .int _ | .str _ | .ref _ | .script _ => by simp [resolve]
  | .list items => by rw [resolve, resolve, resolveAll_withMemory items]
  | .tuple items => by
    simp only [resolve, resolveAll_withMemory items, follow_withMemory]

@[simp]
theorem resolveAll_withMemory : ∀ vs : List Value, (g.withMemory c H).resolveAll vs = g.resolveAll vs
  | [] => by simp [resolveAll]
  | v :: vs => by rw [resolveAll, resolveAll, resolve_withMemory v, resolveAll_withMemory vs]

end

@[simp]
theorem integer_withMemory : (g.withMemory c H).integer = g.integer := by
  funext v
  simp [integer]

@[simp]
theorem truth_withMemory (v : Value) : (g.withMemory c H).truth v = g.truth v := by
  simp [truth]

@[simp]
theorem selector_withMemory (v : Value) : (g.withMemory c H).selector v = g.selector v := by
  simp [selector]

@[simp]
theorem names_withMemory (v : Value) : (g.withMemory c H).names v = g.names v := by
  simp [names]

@[simp]
theorem entityName_withMemory (v : Value) : (g.withMemory c H).entityName v = g.entityName v := by
  simp only [entityName, resolve_withMemory]
  rfl

@[simp]
theorem entityName?_withMemory (v : Value) :
    (g.withMemory c H).entityName? v = g.entityName? v := by
  simp [entityName?]

@[simp]
theorem text_withMemory (v : Value) : (g.withMemory c H).text v = g.text v := by
  simp [text]

@[simp]
theorem location?_withMemory (v : Value) : (g.withMemory c H).location? v = g.location? v := by
  simp [location?]

end

end Engine

/-- **A query has the same answer with any memory.** -/
@[simp]
theorem Query.answer_withMemory (q : Query) (g : Engine) (c : Std.ExtTreeMap String Script)
    (H : History) (scope : Scope) (a : Arguments) :
    q.answer (g.withMemory c H) scope a = q.answer g scope a := by
  cases q <;> simp [answer, arithmetic, comparison, integers, sameness, extremum, membership, number,
    place, standers]

/-! ### Where scripts come from -/

/-- What a computation comes to has a property, if it comes to something. -/
def Gives {ε α : Type} (P : α → Prop) (x : Except ε α) : Prop := ∀ a, x = .ok a → P a

namespace Gives

variable {ε α β : Type} {P : α → Prop} {Q : β → Prop} {x : Except ε α}

theorem ok {a : α} (h : P a) : Gives P (.ok a : Except ε α) := fun _ k => by
  cases k
  exact h

theorem error (e : ε) : Gives P (.error e) := fun _ k => nomatch k

theorem any (x : Except ε α) : Gives (fun _ => True) x := fun _ _ => trivial

theorem bind {f : α → Except ε β} (hx : Gives P x) (hf : ∀ a, P a → Gives Q (f a)) :
    Gives Q (x >>= f) := fun b k => by
  obtain ⟨a, ha, hb⟩ := Except.bind_eq_ok_iff.1 k
  exact hf a (hx a ha) b hb

/-- A property of the second part alone. -/
theorem andThen {f : α → Except ε β} (hf : ∀ a, Gives Q (f a)) : Gives Q (x >>= f) :=
  (any x).bind fun a _ => hf a

theorem foldlM {f : α → β → Except ε α} {bs : List β} {a : α} (h : P a)
    (hf : ∀ a b, P a → Gives P (f a b)) : Gives P (bs.foldlM f a) := by
  induction bs generalizing a with
  | nil => exact ok h
  | cons b bs ih =>
    rw [List.foldlM_cons]
    exact (hf a b h).bind fun a ha => ih ha

end Gives

namespace Engine

variable {g : Engine}

theorem entity?_from (hg : g.state.From S) {name : String} {e : Entity}
    (he : g.entity? name = some e) : e.From S := (State.from_iff.1 hg).1 name e he

theorem entity_from (hg : g.state.From S) (name : String) :
    Gives (Entity.From S) (g.entity name) := fun _ he => entity?_from hg (entity_eq_ok_iff.1 he)

/-- What every visit keeps, a walk keeps. -/
theorem walkFrom_gives {α ε : Type} {visit : α → Entity → Except ε α} {fail : Fault → ε}
    {P : α → Prop} (visits : ∀ name e a, g.entity? name = some e → P a → Gives P (visit a e))
    (steps : Nat) (path : List String) (name : String) {a : α} (ha : P a) :
    Gives P (g.walkFrom visit fail steps path name a) := by
  induction steps generalizing path name a with
  | zero => exact .error _
  | succ steps ih =>
    rw [walkFrom]
    split
    · exact .error _
    · split
      · exact .error _
      · next e he =>
        exact (visits name e a he ha).bind fun b hb => .foldlM hb fun b parent hb => ih _ _ hb

/-- What holds of every entity holds of those that are visited. -/
theorem visited_gives {P : Entity → Prop} (h : ∀ name e, g.entity? name = some e → P e)
    (name : String) : Gives (fun es => ∀ e ∈ es, P e) (g.visited name) := by
  refine Gives.bind (P := fun es => ∀ e ∈ es, P e) ?_ fun es hes => .ok fun e he => ?_
  · refine walkFrom_gives (fun name e es he hes => .ok ?_) _ [] name fun _ h => nomatch h
    exact List.forall_mem_cons.2 ⟨h name e he, hes⟩
  · exact hes e (List.mem_reverse.1 he)

theorem visited_from (hg : g.state.From S) (name : String) :
    Gives (fun es => ∀ e ∈ es, e.From S) (g.visited name) :=
  visited_gives (fun _ _ he => entity?_from hg he) name

theorem inheritedList_from (hg : g.state.From S) (name list : String) :
    Gives (fun items => ∀ item ∈ items, item.From S) (g.inheritedList name list) :=
  (visited_from hg name).bind fun es hes => .ok fun item hi => by
    obtain ⟨e, he, hi⟩ := List.mem_flatMap.1 hi
    exact Entity.from_iff.1 (hes e he) list item hi

theorem inheritedScripts_from (hg : g.state.From S) (name list : String) :
    Gives (fun ss => ∀ s ∈ ss, S s) (g.inheritedScripts name list) :=
  (inheritedList_from hg name list).bind fun _ hitems => .ok (Item.from_scripts.2 hitems)

/-- The entries of a list as a value. -/
theorem from_list_toValue {items : List Item} (h : ∀ item ∈ items, item.From S) :
    (Value.list (items.map (·.toValue))).From S := by
  simpa using h

theorem stat_from (hg : g.state.From S) (name category : String) :
    Gives (Value.From S) (g.stat name category) := by
  unfold stat
  split
  · exact (entity_from hg name).bind fun e he =>
      .ok (from_list_toValue (Entity.from_iff.1 he groupList))
  · split
    · exact .andThen fun n => .ok (Value.from_int n)
    · exact (inheritedList_from hg name category).bind fun _ h => .ok (from_list_toValue h)
    · exact .andThen fun text => .ok (Value.from_str text)
    · exact .error _

theorem follow_from (hg : g.state.From S) (current category : Value) :
    Gives (Value.From S) (g.follow current category) := by
  unfold follow
  split
  · exact .error _
  · split
    · exact .error _
    · exact stat_from hg _ _

mutual

/-- **What a value means has its scripts from the value and the state.** -/
theorem resolve_from (hg : g.state.From S) :
    ∀ v : Value, v.From S → Gives (Value.From S) (g.resolve v)
  | .none, h | .bool _, h | .int _, h | .str _, h | .ref _, h | .script _, h => by
    rw [resolve]
    · exact .ok h
    all_goals simp
  | .list items, h => by
    rw [resolve]
    exact (resolveAll_from hg items (Value.from_list.1 h)).bind fun _ h => .ok (Value.from_list.2 h)
  | .tuple items, h => by
    unfold resolve
    split
    · cases items with
      | nil => exact .ok Value.from_none
      | cons first categories =>
        exact .foldlM (Value.from_tuple.1 h first List.mem_cons_self) fun v category _ =>
          follow_from hg v category
    · exact (resolveAll_from hg items (Value.from_tuple.1 h)).bind fun _ h =>
        .ok (Value.from_tuple.2 h)

theorem resolveAll_from (hg : g.state.From S) : ∀ vs : List Value, (∀ v ∈ vs, v.From S) →
    Gives (fun ws => ∀ w ∈ ws, w.From S) (g.resolveAll vs)
  | [], h => by
    rw [resolveAll]
    exact .ok h
  | v :: vs, h => by
    rw [List.forall_mem_cons] at h
    rw [resolveAll]
    exact (resolve_from hg v h.1).bind fun w hw => (resolveAll_from hg vs h.2).bind fun ws hws =>
      .ok (List.forall_mem_cons.2 ⟨hw, hws⟩)

end

end Engine

/-- All scripts in the arguments of a call are from a collection. -/
structure Arguments.From (S : Script → Prop) (a : Arguments) : Prop where
  positional : ∀ v ∈ a.positional, v.From S
  variadic : ∀ v ∈ a.variadic, v.From S
  named : ∀ p ∈ a.named, p.2.From S

theorem Arguments.From.get {a : Arguments} (h : a.From S) (i : Nat) : (a.get i).From S := by
  unfold Arguments.get
  rw [List.getD_eq_getElem?_getD]
  cases hv : a.positional[i]? with
  | none => exact Value.from_none
  | some v => exact h.positional v (List.mem_of_getElem? hv)

/-- **The answer of a query has its scripts from the arguments, the scope and the
state.** -/
theorem Query.answer_from {g : Engine} (hg : g.state.From S) {scope : Scope} (hs : scope.From S)
    {a : Arguments} (ha : a.From S) (q : Query) : Gives (Value.From S) (q.answer g scope a) := by
  cases q with
  | add | sub | mul | div | rem => exact .andThen fun _ => .andThen fun n => .ok (Value.from_int n)
  | lt | le | gt | ge => exact .andThen fun _ => .ok (Value.from_bool _)
  | eq | ne | not | known => exact .andThen fun _ => .ok (Value.from_bool _)
  | and | or => exact .andThen fun _ => .andThen fun _ => .ok (Value.from_bool _)
  | max | min => exact .andThen fun ns => .ok (Value.from_elim Value.from_int _)
  | choose =>
    refine .andThen fun b => .ok ?_
    split
    · exact ha.get 1
    · exact ha.get 2
  | stored => exact .andThen fun name => .ok (hs.stored name)
  | stat => exact .andThen fun name => .andThen fun category => Engine.stat_from hg name category
  | entity => exact .andThen fun name => .ok (Value.from_ref name)
  | contains =>
    refine .andThen fun wanted => .andThen fun v => ?_
    split
    · exact .ok (Value.from_bool _)
    · exact .ok (Value.from_bool _)
    · exact .error _
  | count => exact .andThen fun n => .ok (Value.from_int _)
  | time => exact .ok (Value.from_int _)
  | location =>
    refine .andThen fun name => .andThen fun e => ?_
    split
    · exact .ok Value.from_none
    · exact .ok (by simp)
  | standing =>
    refine .andThen fun place => ?_
    split
    · exact .error _
    · exact .andThen fun names => .ok (by simp)

/-! ### Changes -/

namespace Entity

variable {e e' : Entity}

theorem From.append (h : e.From S) {items : List Item} (hi : ∀ item ∈ items, item.From S)
    (list : String) : (e.append list items).From S :=
  from_iff.2 (every_append_iff.2 ⟨from_iff.1 h, hi⟩)

theorem From.remove (h : e.From S) {list : String} {item : Item} (k : e.remove? list item = some e') :
    e'.From S := from_iff.2 (Every.remove (from_iff.1 h) k)

theorem From.recruit (h : e.From S) (name : String) (location : Option Coord) :
    (e.recruit name location).From S :=
  from_iff.2 (Every.recruit (from_iff.1 h) (Item.from_name name) location)

/-- The entity of a definition holds the scripts it is given. -/
theorem from_ofDefinition (d : Definition) {require effect : List Script}
    (hr : ∀ s ∈ require, S s) (he : ∀ s ∈ effect, S s) : (ofDefinition d require effect).From S :=
  from_iff.2 (every_ofDefinition_iff.2 (by simpa using ⟨hr, he⟩))

end Entity

namespace State

variable {s : State}

/-- An entity is stored. -/
theorem From.insert (h : s.From S) {e : Entity} (he : e.From S) (name : String) (o : Occupancy) :
    { s with entities := s.entities.insert name e, occupancy := o }.From S := by
  rw [from_iff] at h ⊢
  exact ⟨forall_getElem?_insert h.1 he, h.2⟩

theorem From.erase (h : s.From S) (name : String) (o : Occupancy) :
    { s with entities := s.entities.erase name, occupancy := o }.From S := by
  rw [from_iff] at h ⊢
  exact ⟨forall_getElem?_erase h.1 name, h.2⟩

/-- Delays wait. -/
theorem From.wait (h : s.From S) {delays : Series Delay} (hd : ∀ d ∈ delays.toList, d.From S) :
    { s with delays }.From S := from_iff.2 ⟨(from_iff.1 h).1, hd⟩

end State

end Tabletop
