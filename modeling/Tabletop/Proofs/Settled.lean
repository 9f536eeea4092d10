/-
# Settled values: what is resolved once and what is not

Resolving replaces the paths of a value by what they mean, and what a path means is
no path again (`Engine.isOwn_follow`).  So a value is left alone exactly if no tuple in
it is a path (`Engine.resolve_eq_self_iff`), and then every engine leaves it alone.

But whether a tuple is a path is decided by its items as they are, before they are
resolved, and a tuple whose items are resolved is not looked at again.  One that starts
with a reference and goes on with a path that means a string, as in
`(orc (orc aim))`, is no path, and becomes one (`Engine.MeansPath`).  Resolving is
idempotent exactly where this does not happen (`Engine.resolve_resolve_iff`); elsewhere a
value that is stored means something else when it is used than what was stored
(`resolve_not_idempotent`).
-/

import Tabletop.Proofs.Evaluation
import Tabletop.Proofs.Memory

namespace Tabletop

/-! ### Tuples of a value -/

namespace Value

/-- A tuple with these items occurs in a value, and not inside a path. -/
inductive Shows : Value → List Value → Prop
  | self {items} : Shows (.tuple items) items
  | tuple {items v inner} : isPath items = false → v ∈ items → Shows v inner →
      Shows (.tuple items) inner
  | list {items v inner} : v ∈ items → Shows v inner → Shows (.list items) inner

/-- No tuple in a value is a path. -/
def Settled (v : Value) : Prop := ∀ items, v.Shows items → isPath items = false

variable {items : List Value}

/-- The tuples of a tuple are itself and, unless it is a path, those of its items. -/
theorem forall_shows_tuple_iff {P : List Value → Prop} :
    (∀ inner, (Value.tuple items).Shows inner → P inner) ↔
      P items ∧ (isPath items = false → ∀ v ∈ items, ∀ inner, v.Shows inner → P inner) := by
  constructor
  · exact fun h => ⟨h items .self, fun noPath v hv inner hi => h inner (.tuple noPath hv hi)⟩
  · rintro ⟨here, inside⟩ inner hi
    cases hi with
    | self => exact here
    | tuple noPath hv hi => exact inside noPath _ hv inner hi

/-- The tuples of a list are those of its items. -/
theorem forall_shows_list_iff {P : List Value → Prop} :
    (∀ inner, (Value.list items).Shows inner → P inner) ↔
      ∀ v ∈ items, ∀ inner, v.Shows inner → P inner := by
  constructor
  · exact fun h v hv inner hi => h inner (.list hv hi)
  · intro inside inner hi
    cases hi with
    | list hv hi => exact inside _ hv inner hi

theorem settled_tuple_iff :
    (Value.tuple items).Settled ↔ isPath items = false ∧ ∀ v ∈ items, v.Settled :=
  forall_shows_tuple_iff.trans (and_congr_right fun noPath => forall_prop_of_true noPath)

theorem settled_list_iff : (Value.list items).Settled ↔ ∀ v ∈ items, v.Settled :=
  forall_shows_list_iff

theorem isPath_cons_cons_iff {first v : Value} : isPath (first :: v :: items) = true ↔
    (∃ name, first = .ref name) ∧ ((v :: items).all fun v => v.name?.isSome) = true := by
  cases first <;> simp [isPath]

/-- A value that an entity has under a category. -/
def IsOwn : Value → Prop
  | .int _ | .str _ => True
  | .list items => ∃ entries : List Item, items = entries.map (·.toValue)
  | _ => False

theorem IsOwn.settled {v : Value} (h : v.IsOwn) : v.Settled := by
  cases v with
  | int | str => exact fun _ k => nomatch k
  | list items =>
    obtain ⟨entries, rfl⟩ := h
    refine settled_list_iff.2 fun v hv => ?_
    obtain ⟨entry, -, rfl⟩ := List.mem_map.1 hv
    cases entry <;> exact fun _ k => nomatch k
  | none | bool | ref | tuple | script => exact h.elim

end Value

/-! ### Resolving twice -/

namespace Engine

variable {g : Engine} {v w : Value} {items vs ws : List Value}

theorem isOwn_stat (name category : String) : Gives Value.IsOwn (g.stat name category) := by
  unfold stat
  split
  · exact .andThen fun e => .ok ⟨e.group, rfl⟩
  · split
    · exact .andThen fun n => .ok trivial
    · exact .andThen fun entries => .ok ⟨entries, rfl⟩
    · exact .andThen fun text => .ok trivial
    · exact .error _

theorem isOwn_follow (current category : Value) :
    Gives Value.IsOwn (g.follow current category) := by
  unfold follow
  split
  · exact .error _
  · split
    · exact .error _
    · exact isOwn_stat _ _

/-- What a path means is a value that an entity has. -/
theorem isOwn_of_path (path : Value.isPath items = true) (k : g.resolve (.tuple items) = .ok w) :
    w.IsOwn := by
  unfold resolve at k
  rw [if_pos path] at k
  match items, path with
  | .ref name :: category :: rest, _ =>
    have first : Gives Value.IsOwn (g.follow (.ref name) category) := isOwn_follow _ _
    exact (first.bind fun v hv => .foldlM hv fun v c _ => isOwn_follow v c) w k

/-- A path means what following its categories gives. -/
theorem resolve_path {name : String} (ne : items ≠ []) (names : ∀ c ∈ items, c.name?.isSome) :
    g.resolve (.tuple (.ref name :: items)) = items.foldlM g.follow (.ref name) := by
  obtain ⟨c, rest, rfl⟩ := List.exists_cons_of_ne_nil ne
  have path : Value.isPath (.ref name :: c :: rest) = true :=
    Value.isPath_cons_cons_iff.2 ⟨⟨name, rfl⟩, List.all_eq_true.2 names⟩
  unfold resolve
  rw [if_pos path]

theorem resolve_tuple (noPath : Value.isPath items = false) :
    g.resolve (.tuple items) = .ok w ↔ ∃ ws, g.resolveAll items = .ok ws ∧ w = .tuple ws := by
  unfold resolve
  rw [if_neg (by simp [noPath]), Except.bind_eq_ok_iff]
  simp [pure, Except.pure, eq_comm]

theorem resolve_list :
    g.resolve (.list items) = .ok w ↔ ∃ ws, g.resolveAll items = .ok ws ∧ w = .list ws := by
  rw [resolve, Except.bind_eq_ok_iff]
  simp [pure, Except.pure, eq_comm]

theorem resolveAll_cons : g.resolveAll (v :: vs) = .ok ws ↔
    ∃ w rest, g.resolve v = .ok w ∧ g.resolveAll vs = .ok rest ∧ ws = w :: rest := by
  rw [resolveAll, Except.bind_eq_ok_iff]
  simp only [Except.bind_eq_ok_iff]
  simp [pure, Except.pure, eq_comm]

mutual

/-- **A value is left alone exactly if no tuple in it is a path.** -/
theorem resolve_eq_self_iff : ∀ v : Value, g.resolve v = .ok v ↔ v.Settled
  | .none | .bool _ | .int _ | .str _ | .ref _ | .script _ => by
    refine iff_of_true ?_ fun _ k => nomatch k
    rw [resolve]
    all_goals simp
  | .list items => by
    rw [Value.settled_list_iff, ← resolveAll_eq_self_iff items, resolve_list]
    simp
  | .tuple items => by
    rw [Value.settled_tuple_iff, ← resolveAll_eq_self_iff items]
    cases path : Value.isPath items with
    | true =>
      have moved : ¬ g.resolve (.tuple items) = .ok (.tuple items) := isOwn_of_path path
      simp [moved]
    | false =>
      rw [resolve_tuple path]
      simp

theorem resolveAll_eq_self_iff : ∀ vs : List Value,
    g.resolveAll vs = .ok vs ↔ ∀ v ∈ vs, v.Settled
  | [] => by simp [resolveAll]
  | v :: vs => by
    rw [List.forall_mem_cons, ← resolve_eq_self_iff v, ← resolveAll_eq_self_iff vs,
      resolveAll_cons]
    simp

end

/-- Only a reference means a reference. -/
theorem resolve_eq_ref_iff {name : String} : g.resolve v = .ok (.ref name) ↔ v = .ref name := by
  cases v with
  | list items => simp [resolve_list]
  | tuple items =>
    cases path : Value.isPath items with
    | true =>
      have own : ¬ g.resolve (.tuple items) = .ok (.ref name) := isOwn_of_path path
      simp [own]
    | false => simp [resolve_tuple path]
  | _ =>
    rw [resolve]
    all_goals simp

/-- A tuple starts with a reference and goes on with values that mean names. -/
def MeansPath (g : Engine) (items : List Value) : Prop :=
  ∃ name v vs, items = .ref name :: v :: vs ∧
    ∀ x ∈ v :: vs, ∃ y, g.resolve x = .ok y ∧ y.name?.isSome

/-- What several values mean are names exactly if each of them means one. -/
theorem all_name_resolveAll (k : g.resolveAll vs = .ok ws) :
    (ws.all fun w => w.name?.isSome) = true ↔
      ∀ x ∈ vs, ∃ y, g.resolve x = .ok y ∧ y.name?.isSome := by
  induction vs generalizing ws with
  | nil =>
    cases k
    simp
  | cons v vs ih =>
    obtain ⟨w, rest, hv, hvs, rfl⟩ := resolveAll_cons.1 k
    rw [List.all_cons, Bool.and_eq_true, ih hvs, List.forall_mem_cons]
    refine and_congr_left fun _ => ⟨fun h => ⟨w, hv, h⟩, ?_⟩
    rintro ⟨y, hy, h⟩
    rw [hv] at hy
    cases hy
    exact h

/-- A tuple becomes a path exactly if it means one. -/
theorem isPath_resolveAll (k : g.resolveAll vs = .ok ws) :
    Value.isPath ws = true ↔ g.MeansPath vs := by
  match vs, k with
  | [], k =>
    cases k
    simp [MeansPath, Value.isPath]
  | [v], k =>
    obtain ⟨w, rest, hv, hvs, rfl⟩ := resolveAll_cons.1 k
    cases hvs
    simp [MeansPath, Value.isPath]
  | first :: v :: vs, k =>
    obtain ⟨head, rest, hfirst, hrest, rfl⟩ := resolveAll_cons.1 k
    obtain ⟨w, ws, hv, hvs, rfl⟩ := resolveAll_cons.1 hrest
    rw [Value.isPath_cons_cons_iff, all_name_resolveAll hrest]
    constructor
    · rintro ⟨⟨name, rfl⟩, names⟩
      exact ⟨name, v, vs, by rw [resolve_eq_ref_iff.1 hfirst], names⟩
    · rintro ⟨name, _, _, ⟨⟩, names⟩
      rw [resolve_eq_ref_iff.2 rfl] at hfirst
      cases hfirst
      exact ⟨⟨name, rfl⟩, names⟩

/-- No tuple of a value, outside its paths, becomes a path. -/
def Steady (g : Engine) (v : Value) : Prop :=
  ∀ items, v.Shows items → Value.isPath items = false → ¬ g.MeansPath items

theorem steady_tuple_iff (noPath : Value.isPath items = false) :
    g.Steady (.tuple items) ↔ ¬ g.MeansPath items ∧ ∀ v ∈ items, g.Steady v := by
  refine Value.forall_shows_tuple_iff.trans ?_
  rw [forall_prop_of_true noPath, forall_prop_of_true noPath]
  rfl

theorem steady_of_path (path : Value.isPath items = true) : g.Steady (.tuple items) :=
  Value.forall_shows_tuple_iff.2 ⟨by simp [path], by simp [path]⟩

theorem steady_list_iff : g.Steady (.list items) ↔ ∀ v ∈ items, g.Steady v :=
  Value.forall_shows_list_iff

mutual

/-- What a value means is settled exactly if none of its tuples becomes a path. -/
theorem settled_resolve_iff : ∀ (v : Value) {w : Value}, g.resolve v = .ok w →
    (w.Settled ↔ g.Steady v)
  | .none, _, k | .bool _, _, k | .int _, _, k | .str _, _, k | .ref _, _, k | .script _, _, k => by
    rw [resolve] at k
    · cases k
      exact iff_of_true (fun _ k => nomatch k) fun _ k => nomatch k
    all_goals simp
  | .list items, _, k => by
    obtain ⟨ws, hws, rfl⟩ := resolve_list.1 k
    rw [Value.settled_list_iff, steady_list_iff, settled_resolveAll_iff items hws]
  | .tuple items, w, k => by
    cases path : Value.isPath items with
    | true => exact iff_of_true (isOwn_of_path path k).settled (steady_of_path path)
    | false =>
      obtain ⟨ws, hws, rfl⟩ := (resolve_tuple path).1 k
      rw [Value.settled_tuple_iff, steady_tuple_iff path, settled_resolveAll_iff items hws,
        ← isPath_resolveAll hws, Bool.not_eq_true]

theorem settled_resolveAll_iff : ∀ (vs : List Value) {ws : List Value},
    g.resolveAll vs = .ok ws → ((∀ w ∈ ws, w.Settled) ↔ ∀ v ∈ vs, g.Steady v)
  | [], _, k => by
    cases k
    simp
  | v :: vs, _, k => by
    obtain ⟨w, ws, hv, hvs, rfl⟩ := resolveAll_cons.1 k
    rw [List.forall_mem_cons, List.forall_mem_cons, settled_resolve_iff v hv,
      settled_resolveAll_iff vs hvs]

end

end Engine

/-! ### Values that are stored -/

section

variable {g h : Engine} {v w : Value} {p : Powers} {name : String} {scope : Scope}

theorem Scope.stored_store : (scope.store name v).stored name = v :=
  Std.ExtTreeMap.getD_insert_self

/-- A name as text is its text. -/
theorem Engine.text_of_name? (h : v.name? = some name) : g.text v = .ok name := by
  cases v with
  | str | ref =>
    cases h
    rw [text, resolve]
    · rfl
    all_goals simp
  | _ => cases h

/-- A value is stored as what it means. -/
theorem Interpreter.call_assign (k : g.resolve v = .ok w) :
    call p .assign { positional := [.str name, v] } scope g =
      some (.ok (.bool true, scope.store name w), g) := by
  have first : (Run.ask (·.text (.str name)) : Scoped String) scope g =
      some (.ok (name, scope), g) := by
    rw [Scoped.ask_apply, Engine.text_of_name? rfl]
    rfl
  have second : (Run.ask (·.resolve v) : Scoped Value) scope g = some (.ok (w, scope), g) := by
    rw [Scoped.ask_apply, k]
    rfl
  unfold call
  exact (Scoped.bind_apply_ok first).trans (Scoped.bind_apply_ok second)

/-- What was stored is read as it was stored. -/
theorem Interpreter.call_stored :
    call p (.query .stored) { positional := [.str name] } (scope.store name w) h =
      some (.ok (w, scope.store name w), h) := by
  have answer : Query.stored.answer h (scope.store name w) { positional := [.str name] } =
      .ok w := by
    show (h.text (.str name) >>= fun name' => .ok ((scope.store name w).stored name')) = _
    rw [Engine.text_of_name? rfl]
    exact congrArg Except.ok Scope.stored_store
  rw [call_query, answer]
  rfl

/-- **Resolving is idempotent exactly where no tuple becomes a path.**  A value is stored
as what it means, and read as it was stored; wherever it is used then, in whatever engine,
it means what was stored exactly if no tuple of the value becomes a path when its items are
resolved. -/
theorem Engine.resolve_resolve_iff (k : g.resolve v = .ok w) :
    (∀ h : Engine, h.resolve w = .ok w ↔ g.Steady v) ∧
    ∀ (p : Powers) (name : String) (scope : Scope),
      Interpreter.call p .assign { positional := [.str name, v] } scope g =
        some (.ok (.bool true, scope.store name w), g) ∧
      ∀ h, Interpreter.call p (.query .stored) { positional := [.str name] }
        (scope.store name w) h = some (.ok (w, scope.store name w), h) :=
  ⟨fun _ => (resolve_eq_self_iff w).trans (settled_resolve_iff v k), fun _ _ _ =>
    ⟨Interpreter.call_assign k, fun _ => Interpreter.call_stored⟩⟩

end

/-- What a list of a stat and a pair of numbers means is what it means later on. -/
theorem resolve_resolve_orc : ∃ g : Engine,
    g.resolve (.list [.tuple [.ref "orc", .ref "HP"], .tuple [.int 1, .int 2]]) =
      .ok (.list [.int 10, .tuple [.int 1, .int 2]]) ∧
    ∀ h : Engine, h.resolve (.list [.int 10, .tuple [.int 1, .int 2]]) =
      .ok (.list [.int 10, .tuple [.int 1, .int 2]]) := by
  let g : Engine :=
    { registry := {}
      config := {}
      schema := { kinds := .ofList [("HP", Category.stat)] }
      state :=
        { entities := .ofList [("orc", (Entity.named "orc").setStat "HP" 10)]
          dice := { seed := 0 } } }
  have first : g.resolve (.list [.tuple [.ref "orc", .ref "HP"], .tuple [.int 1, .int 2]]) =
      .ok (.list [.int 10, .tuple [.int 1, .int 2]]) := rfl
  have idem := (Engine.resolve_resolve_iff first).1
  exact ⟨g, first, fun h => (idem h).2 ((idem g).1 rfl)⟩

/-- Where `aim` of the orc is `HP`, the tuple `(orc (orc aim))` means `(orc HP)`, which is a
path and means 10. -/
theorem resolve_not_idempotent : ∃ g : Engine, Reachable g ∧
    g.resolve (.tuple [.ref "orc", .tuple [.ref "orc", .ref "aim"]]) =
      .ok (.tuple [.ref "orc", .str "HP"]) ∧
    g.resolve (.tuple [.ref "orc", .str "HP"]) = .ok (.int 10) := by
  obtain ⟨s, hs⟩ : ∃ s,
      Engine.start { catalog := { stats := ["HP"], strings := ["aim"] } } {} = .ok s := ⟨_, rfl⟩
  obtain ⟨g, hg⟩ : ∃ g,
      Mutation.insert (((Entity.named "orc").setStat "HP" 10).setString "aim" "HP") s =
        some (.ok (), g) := by
    cases hs
    exact ⟨_, rfl⟩
  refine ⟨g, (Reachable.start hs).insert hg, ?_, ?_⟩
  all_goals
    cases hs
    cases hg
    rfl

end Tabletop
