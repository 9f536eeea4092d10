/-
# Paths: one category after another

A path names an entity and then categories, each of which is looked up on what the one
before gave.  The function of `get` looks up a single category, and asks first whether the
entity exists.  That makes no difference to what is found, since nobody has a category who
does not exist (`Engine.contains_of_stat`).  What a category gives is never a path again, so
the next call of `get` finds it as the path left it, and along the categories the two agree
(`Engine.gets_eq_ok_iff`, by induction on the path).

Written as nested calls, the same is evaluated from the inside out (`Interpreter.eval_gets`,
by induction on the names).  Hence a path has a meaning exactly if the nested calls have a
value, and the two are the same (`Engine.resolve_path_iff_gets`).
-/

import Tabletop.Proofs.Membership

namespace Tabletop

/-! ### The function of `get` -/

/-- What the function of `get` answers for a value and one category after another. -/
def Query.gets (g : Engine) (scope : Scope) (v : Value) (categories : List Value) :
    Except Fault Value :=
  categories.foldlM
    (fun current category => Query.stat.answer g scope { positional := [current, category] }) v

/-- The call of `get` around an expression, once for each name. -/
def Expr.gets (x : Expr) (names : List String) : Expr :=
  names.foldl (fun x name => .call "stat" [x, .literal (.str name)] [] []) x

namespace Engine

variable {g : Engine} {name category : String} {current c v w : Value} {scope : Scope}

/-- A walk from a name that nobody has ends there. -/
theorem walk_unknown {α ε : Type} {visit : α → Entity → Except ε α} {fail : Fault → ε} {a : α}
    (he : g.entity? name = none) :
    g.walk visit fail name a = .error (fail (.undefined .entity name)) :=
  walkFrom_unknown List.not_mem_nil he

/-- **Nobody has a category who does not exist.** -/
theorem contains_of_stat (h : g.stat name category = .ok v) : g.contains name = true := by
  rw [← Bool.not_eq_false, contains_eq_false_iff]
  intro unknown
  have entity : g.entity name = .error (.undefined .entity name) := by rw [Engine.entity, unknown]
  unfold stat at h
  split at h
  · rw [entity] at h
    cases h
  · split at h
    · rw [statTotal, walk_unknown unknown] at h
      cases h
    · rw [inheritedList, visited, walk_unknown unknown] at h
      cases h
    · rw [inheritedString, walk_unknown unknown] at h
      cases h
    · cases h

/-- The name of a settled value, if an entity has it. -/
theorem entityName_eq_ok_iff (settled : current.Settled) :
    g.entityName current = .ok name ↔ current.name? = some name ∧ g.contains name = true := by
  have left : g.resolve current = .ok current := (resolve_eq_self_iff current).2 settled
  constructor
  · intro h
    obtain ⟨v, hv, h⟩ := Except.bind_eq_ok_iff.1 h
    cases left.symm.trans hv
    split at h
    · cases h
    · next named =>
      split at h
      · next known =>
        cases h
        exact ⟨named, known⟩
      · cases h
  · rintro ⟨named, known⟩
    refine Except.bind_eq_ok_iff.2 ⟨current, left, ?_⟩
    simp only [named, known, if_true]
    rfl

/-- **To get a category is to go on along a path by it.** -/
theorem answer_stat_eq_ok_iff (settled : current.Settled) (hc : c.name? = some category) :
    Query.stat.answer g scope { positional := [current, c] } = .ok v ↔
      g.follow current c = .ok v := by
  have asked : Query.stat.answer g scope { positional := [current, c] } = .ok v ↔
      ∃ name, g.entityName current = .ok name ∧ g.stat name category = .ok v := by
    show (do
      let name ← g.entityName current
      let category ← g.text c
      g.stat name category) = _ ↔ _
    rw [text_of_name? hc]
    exact Except.bind_eq_ok_iff
  rw [asked, follow, hc]
  -- the path does not ask whether the entity exists, but it gives nothing if it does not
  simp only [entityName_eq_ok_iff settled]
  cases current.name? with
  | none => simp
  | some name =>
    constructor
    · rintro ⟨_, ⟨⟨⟩, _⟩, value⟩
      exact value
    · exact fun value => ⟨name, ⟨rfl, contains_of_stat value⟩, value⟩

/-- To get several categories from a settled value is to go on along a path by them. -/
theorem gets_eq_ok_iff {categories : List Value} (settled : current.Settled)
    (names : ∀ c ∈ categories, c.name?.isSome) :
    Query.gets g scope current categories = .ok v ↔ categories.foldlM g.follow current = .ok v := by
  induction categories generalizing current with
  | nil => rfl
  | cons c categories ih =>
    obtain ⟨here, further⟩ := List.forall_mem_cons.1 names
    obtain ⟨category, hc⟩ := Option.isSome_iff_exists.1 here
    rw [Query.gets, List.foldlM_cons, List.foldlM_cons, Except.bind_eq_ok_iff,
      Except.bind_eq_ok_iff]
    refine exists_congr fun w => ?_
    rw [answer_stat_eq_ok_iff settled hc]
    exact and_congr_right fun hw => ih (isOwn_follow current c w hw).settled further

/-- Only the names of categories matter. -/
theorem gets_names {categories : List Value} (names : ∀ c ∈ categories, c.name?.isSome) :
    Query.gets g scope current ((categories.filterMap (·.name?)).map .str) =
      Query.gets g scope current categories := by
  induction categories generalizing current with
  | nil => rfl
  | cons c categories ih =>
    obtain ⟨here, further⟩ := List.forall_mem_cons.1 names
    obtain ⟨category, hc⟩ := Option.isSome_iff_exists.1 here
    have same : Query.stat.answer g scope { positional := [current, .str category] } =
        Query.stat.answer g scope { positional := [current, c] } := by
      show (do
        let name ← g.entityName current
        let category ← g.text (.str category)
        g.stat name category) = (do
        let name ← g.entityName current
        let category ← g.text c
        g.stat name category)
      rw [text_of_name? hc, text_of_name? rfl]
    rw [List.filterMap_cons_some hc, List.map_cons, Query.gets, Query.gets, List.foldlM_cons,
      List.foldlM_cons, same]
    exact congrArg _ (funext fun w => ih further)

end Engine

namespace Interpreter

variable {g : Engine} {p : Powers} {x : Expr} {scope : Scope} {r : Except Fault Value}

/-- A call of `get` around an expression asks for a category of its value. -/
theorem eval_get (known : g.registry.knowsFunctions = true)
    (hx : eval p x scope g = some (r.map (·, scope), g)) (name : String) :
    eval p (.call "stat" [x, .literal (.str name)] [] []) scope g =
      some ((r >>= fun v => Query.stat.answer g scope { positional := [v, .str name] }).map
        (·, scope), g) := by
  cases r with
  | error fault => exact eval_call_error_left hx
  | ok v =>
    have found : g.registry.function? "stat" = some (.query .stat) := by
      rw [Registry.function?, known]
      rfl
    exact eval_call_query hx rfl found

/-- **Nested calls of `get` ask for one category after another.** -/
theorem eval_gets (known : g.registry.knowsFunctions = true)
    (hx : eval p x scope g = some (r.map (·, scope), g)) (names : List String) :
    eval p (x.gets names) scope g =
      some ((r >>= fun v => Query.gets g scope v (names.map .str)).map (·, scope), g) := by
  induction names generalizing x r with
  | nil => exact hx.trans (by rw [List.map_nil]; cases r <;> rfl)
  | cons name names ih =>
    refine (ih (eval_get known hx name)).trans ?_
    rw [bind_assoc]
    rfl

end Interpreter

/-- **A path means what nested calls of `get` answer.**  On every engine, whatever its names
denote and whoever exists, the path of an entity and some categories resolves to a value
exactly if the function of `get`, asked for one category after another from the reference
on, answers it.

On an engine that knows functions, and with any powers, that is exactly if the nested calls
`get (… (get (get entity c₁) c₂) …) cₙ` evaluate to it, which leaves the engine and the scope
as they were. -/
theorem Engine.resolve_path_iff_gets {g : Engine} {entity : String} {categories : List Value}
    (ne : categories ≠ []) (names : ∀ c ∈ categories, c.name?.isSome) (scope : Scope) (v : Value) :
    (g.resolve (.tuple (.ref entity :: categories)) = .ok v ↔
      Query.gets g scope (.ref entity) categories = .ok v) ∧
    (g.registry.knowsFunctions = true → ∀ p : Powers,
      (g.resolve (.tuple (.ref entity :: categories)) = .ok v ↔
        Interpreter.eval p (Expr.gets (.name entity) (categories.filterMap (·.name?))) scope g =
          some (.ok (v, scope), g))) := by
  have settled : (Value.ref entity).Settled := by
    rintro _ ⟨⟩
  have path : g.resolve (.tuple (.ref entity :: categories)) = .ok v ↔
      Query.gets g scope (.ref entity) categories = .ok v := by
    rw [resolve_path ne names, gets_eq_ok_iff settled names]
  refine ⟨path, fun known p => ?_⟩
  have start : Interpreter.eval p (.name entity) scope g =
      some ((Except.ok (.ref entity) : Except Fault Value).map (·, scope), g) := rfl
  rw [path, Interpreter.eval_gets known start]
  show _ ↔ some ((Query.gets g scope (.ref entity) _).map (·, scope), g) = _
  rw [gets_names names]
  cases Query.gets g scope (.ref entity) categories <;> simp [Except.map]

/-- A game of an orc and its chief, with the hit points of both. -/
def clan : Engine :=
  let config : Config := { catalog := { stats := ["HP"], strings := ["chief"] } }
  let orc := (Entity.named "orc").setString "chief" "boss"
  let boss := (Entity.named "boss").setStat "HP" 30
  { registry := { knowsFunctions := true }
    config
    schema := (Schema.ofCatalog config.catalog).toOption.getD {}
    state := { entities := .ofList [("orc", orc), ("boss", boss)], dice := { seed := 0 } }
    history := .ofList [] }

/-- The chief of the orc has 30 hit points, asked for one after the other. -/
theorem Engine.resolve_path_iff_gets_chief :
    clan.resolve (.tuple [.ref "orc", .ref "chief", .str "HP"]) = .ok (.int 30) ∧
    Interpreter.eval (powers 0)
      (.call "stat" [.call "stat" [.name "orc", .literal (.str "chief")] [] [],
        .literal (.str "HP")] [] []) {} clan = some (.ok (.int 30, {}), clan) := by
  have path : clan.resolve (.tuple [.ref "orc", .ref "chief", .str "HP"]) = .ok (.int 30) := rfl
  have names : ∀ c ∈ [.ref "chief", .str "HP"], (Value.name? c).isSome := by simp [Value.name?]
  have ne : [.ref "chief", .str "HP"] ≠ ([] : List Value) := List.cons_ne_nil _ _
  exact ⟨path, ((resolve_path_iff_gets ne names {} (.int 30)).2 (by rfl) (powers 0)).1 path⟩

end Tabletop
