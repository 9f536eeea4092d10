/-
# Twins: engines that differ in memory only

Two engines with the same game and the same state, but with other texts compiled and
another history, are twins.  If neither has a script in memory that is not what its
text compiles to (`Engine.Sound`), a run ends alike on both: with the same result,
and with twins again (`Alike`).

This is shown for everything a script does, as scripts are put together, by one
induction over expressions (`Interpreter.eval_alike`).  The same induction follows
the scripts that travel: what a run answers, and what it leaves behind, has its
scripts from where they were from before, or from compiling.
-/

import Tabletop.Proofs.Memory

namespace Tabletop

variable {S : Script → Prop}

/-- An engine remembers for a text what it compiles to, and has all its scripts from a
collection, to which everything belongs that can be compiled. -/
structure Engine.Sound (S : Script → Prop) (g : Engine) : Prop where
  cached : ∀ (raw : String) (s : Script), g.cache[raw]? = some s → g.registry.compile raw = .ok s
  compiled : ∀ raw, Gives S (g.registry.compile raw)
  states : ∀ s ∈ g.state :: g.frames, s.From S

namespace Engine.Sound

variable {g : Engine}

theorem state (hg : g.Sound S) : g.state.From S := hg.states g.state List.mem_cons_self

theorem withState (hg : g.Sound S) {s : State} (hs : s.From S) : (g.withState s).Sound S where
  cached := hg.cached
  compiled := hg.compiled
  states := List.forall_mem_cons.2 ⟨hs, (List.forall_mem_cons.1 hg.states).2⟩

theorem record (hg : g.Sound S) : g.record.Sound S where
  cached := hg.cached
  compiled := hg.compiled
  states := Always.record hg.states

/-- A text is remembered as what it compiles to. -/
theorem remember (hg : g.Sound S) {raw : String} {s : Script} (hs : g.registry.compile raw = .ok s) :
    ({ g with cache := g.cache.insert raw s } : Engine).Sound S where
  cached other t ht := by
    rw [Std.ExtTreeMap.getElem?_insert] at ht
    split at ht
    · next same =>
      cases ht
      rwa [← Std.compare_eq_iff_eq.1 same]
    · exact hg.cached other t ht
  compiled := hg.compiled
  states := hg.states

/-- **A text compiles to what the registry makes of it**, remembered or not. -/
theorem compile_eq (hg : g.Sound S) (raw : String) : g.compile raw =
    match g.registry.compile raw with
    | .error cause => .error (.script raw cause)
    | .ok s => .ok (s, { g with cache := g.cache.insert raw s }) := by
  unfold Engine.compile
  cases hc : g.cache[raw]? with
  | none => rfl
  | some s =>
    have same : g.cache.insert raw s = g.cache := by
      ext other
      rw [Std.ExtTreeMap.getElem?_insert]
      split
      · next e => rw [← Std.compare_eq_iff_eq.1 e, hc]
      · rfl
    simp only [hg.cached raw s hc, same]

end Engine.Sound

/-- How a run ends on twins: with one result, which has a property, and with twins. -/
inductive Ends (S : Script → Prop) {α : Type} (P : α → Prop) :
    Option (Except Fault α × Engine) → Option (Except Fault α × Engine) → Prop
  | outOfFuel : Ends S P none none
  | ends {r : Except Fault α} {g : Engine} {c : Std.ExtTreeMap String Script} {H : History} :
      Gives P r → g.Sound S → (g.withMemory c H).Sound S →
      Ends S P (some (r, g)) (some (r, g.withMemory c H))

/-- Where a run ends, its result has the property and the engine is sound. -/
theorem Ends.left {α : Type} {P : α → Prop} {r : Except Fault α} {h : Engine}
    {other : Option (Except Fault α × Engine)} (e : Ends S P (some (r, h)) other) :
    Gives P r ∧ h.Sound S := by
  cases e with
  | ends gives sound _ => exact ⟨gives, sound⟩

/-- Twins answer the same and are left in the same state. -/
theorem Ends.same {α : Type} {P : α → Prop} {one other : Option (Except Fault α × Engine)}
    (e : Ends S P one other) :
    one.map (fun p => (p.1, p.2.state)) = other.map fun p => (p.1, p.2.state) := by
  cases e <;> rfl

/-- A run that ends alike on twins. -/
def Alike (S : Script → Prop) {α : Type} (P : α → Prop) (x : Run α) : Prop :=
  ∀ g c H, g.Sound S → (g.withMemory c H).Sound S → Ends S P (x g) (x (g.withMemory c H))

/-- A computation of a script that ends alike on twins, from a scope with scripts from a
collection. -/
def ScopedAlike (S : Script → Prop) {α : Type} (P : α → Prop) (x : Scoped α) : Prop :=
  ∀ scope, scope.From S → Alike S (fun p => P p.1 ∧ p.2.From S) (x scope)

namespace Alike

variable {α β : Type} {P : α → Prop} {Q : β → Prop} {x : Run α}

theorem result {a : α} (ha : P a) : Alike S P (pure a) :=
  fun _ _ _ hg hh => .ends (.ok ha) hg hh

/-- A result without scripts. -/
theorem plain (a : α) : Alike S (fun _ => True) (pure a) := result trivial

theorem throw (fault : Fault) : Alike S P (throw fault) :=
  fun _ _ _ hg hh => .ends (.error fault) hg hh

theorem outOfFuel : Alike S P Run.outOfFuel := fun _ _ _ _ _ => .outOfFuel

/-- What does not depend on memory is looked up. -/
theorem ask {f : Engine → Except Fault α} (looks : ∀ g c H, f (g.withMemory c H) = f g)
    (gives : ∀ g, g.state.From S → Gives P (f g)) : Alike S P (Run.ask f) := by
  intro g c H hg hh
  unfold Run.ask
  rw [looks]
  exact .ends (gives g hg.state) hg hh

/-- What does not depend on memory, and is no script, is looked up. -/
theorem look {f : Engine → Except Fault α} (looks : ∀ g c H, f (g.withMemory c H) = f g) :
    Alike S (fun _ => True) (Run.ask f) := .ask looks fun _ _ => .any _

/-- The state is replaced. -/
theorem update {w : State → State} (hw : ∀ s, s.From S → (w s).From S) :
    Alike S (fun _ => True) (Run.update fun g => g.withState (w g.state)) :=
  fun g _ _ hg hh => .ends (g := g.withState (w g.state)) (.any _) (hg.withState (hw _ hg.state))
    (hh.withState (hw _ hg.state))

theorem bind {f : α → Run β} (hx : Alike S P x) (hf : ∀ a, P a → Alike S Q (f a)) :
    Alike S Q (x >>= f) := by
  intro g c H hg hh
  show Ends S Q (Run.andThen x f g) (Run.andThen x f (g.withMemory c H))
  unfold Run.andThen
  have both := hx g c H hg hh
  generalize x g = one, x (g.withMemory c H) = other at both
  cases both with
  | outOfFuel => exact .outOfFuel
  | @ends r m c' H' gives hm hm' =>
    cases r with
    | error fault => exact .ends (.error fault) hm hm'
    | ok a => exact hf a (gives a rfl) m c' H' hm hm'

theorem imp {Q : α → Prop} (hx : Alike S P x) (h : ∀ a, P a → Q a) : Alike S Q x := by
  intro g c H hg hh
  have both := hx g c H hg hh
  generalize x g = one, x (g.withMemory c H) = other at both
  cases both with
  | outOfFuel => exact .outOfFuel
  | ends gives hm hm' => exact .ends (fun a ha => h a (gives a ha)) hm hm'

/-- Where the run ends, its result has the property and the engine is sound. -/
theorem keeps {g h : Engine} {r : Except Fault α} (hx : Alike S P x) (hg : g.Sound S)
    (k : x g = some (r, h)) : Gives P r ∧ h.Sound S := by
  have ends := hx g g.cache g.history hg hg
  rw [Engine.withMemory_self, k] at ends
  exact ends.left

/-- A result that is dropped. -/
theorem done (hx : Alike S P x) : Alike S (fun _ => True) (do let _ ← x) :=
  hx.bind fun _ _ => plain ()

theorem orElse {handler : Fault → Run α} (hx : Alike S P x)
    (hf : ∀ fault, Alike S P (handler fault)) : Alike S P (x.orElse handler) := by
  intro g c H hg hh
  unfold Run.orElse
  have both := hx g c H hg hh
  generalize x g = one, x (g.withMemory c H) = other at both
  cases both with
  | outOfFuel => exact .outOfFuel
  | @ends r m c' H' gives hm hm' =>
    cases r with
    | error fault => exact hf fault m c' H' hm hm'
    | ok a => exact .ends gives hm hm'

theorem sweep {y : α → Run Bool} (hy : ∀ a, Alike S (fun _ => True) (y a)) (items : List α) :
    Alike S (fun _ => True) (Run.sweep y items) := by
  unfold Run.sweep
  generalize false = any
  induction items generalizing any with
  | nil => exact plain any
  | cons a items ih =>
    rw [List.foldlM_cons]
    exact ((hy a).bind fun now _ => plain (any || now)).bind fun any _ => ih any

end Alike

namespace ScopedAlike

variable {α β : Type} {P : α → Prop} {Q : β → Prop} {x : Scoped α}

theorem result {a : α} (ha : P a) : ScopedAlike S P (pure a) :=
  fun _ hs => .result ⟨ha, hs⟩

theorem bind {f : α → Scoped β} (hx : ScopedAlike S P x) (hf : ∀ a, P a → ScopedAlike S Q (f a)) :
    ScopedAlike S Q (x >>= f) :=
  fun scope hs => (hx scope hs).bind fun p hp => hf p.1 hp.1 p.2 hp.2

theorem run {y : Run α} (hy : Alike S P y) : ScopedAlike S P (liftM y) :=
  fun _ hs => hy.bind fun _ ha => .result ⟨ha, hs⟩

theorem getScope : ScopedAlike S (Scope.From S) get := fun _ hs => .result ⟨hs, hs⟩

theorem store {name : String} {v : Value} (hv : v.From S) :
    ScopedAlike S (fun _ => True) (modify (·.store name v)) :=
  fun _ hs => .result ⟨trivial, hs.store name hv⟩

theorem throw (fault : Fault) : ScopedAlike S P (throw fault) := run (.throw fault)

/-- A scope of its own. -/
theorem within (hx : ScopedAlike S P x) {scope : Scope} (hs : scope.From S) :
    Alike S P (x.within scope) := (hx scope hs).bind fun _ hp => .result hp.1

end ScopedAlike

/-! ### Compiling -/

/-- A text compiles alike on twins, to a script of the collection. -/
theorem compile_alike (raw : String) : Alike S S (Run.change (·.compile raw)) := by
  intro g c H hg hh
  unfold Run.change
  dsimp only
  rw [hg.compile_eq, hh.compile_eq, Engine.registry_withMemory]
  cases hs : g.registry.compile raw with
  | error cause => exact .ends (.error _) hg hh
  | ok s =>
    have remembered := hg.remember hs
    exact .ends (g := { g with cache := g.cache.insert raw s }) (.ok (hg.compiled raw s hs))
      remembered (hh.remember hs)

/-- What a value can be scheduled as has its script from the value, or from compiling. -/
theorem callback_alike {v : Value} (hv : v.From S) :
    Alike S (fun callback => ∀ s ∈ callback.scripts, S s) (Run.change (·.callback v)) := by
  cases v with
  | str source =>
    have e : Run.change (·.callback (.str source)) =
        (Run.change (·.compile source) >>= fun s => pure (.script s)) := by
      funext g
      show Run.change _ g = Run.andThen _ _ g
      dsimp only [Run.change, Run.andThen, Engine.callback]
      cases g.compile source <;> rfl
    rw [e]
    exact (compile_alike source).bind fun s hs => .result (by simpa [Callback.scripts] using hs)
  | ref name =>
    have e : Run.change (·.callback (.ref name)) =
        (Run.ask (·.entity name) >>= fun _ => pure (.entity name)) := by
      funext g
      show Run.change _ g = Run.andThen _ _ g
      dsimp only [Run.change, Run.andThen, Run.ask, Engine.callback]
      cases g.entity name <;> rfl
    rw [e]
    exact (Alike.look (by simp)).bind fun _ _ => .result fun _ h => nomatch h
  | script s => exact .result (by simpa [Callback.scripts] using hv)
  | _ => exact .throw _

/-- A callback is scheduled. -/
theorem schedule_alike {callback : Callback} (hc : ∀ s ∈ callback.scripts, S s) (ticks : Int)
    {scope : Scope} (hs : scope.From S) :
    Alike S (fun _ => True) (Run.update (Clock.schedule callback ticks scope)) := by
  let delay : Delay := { ticks := max ticks 0, callback, scope }
  refine .update (w := fun s => { s with delays := s.delays.push delay }) fun s h =>
    h.wait fun d hd => ?_
  rw [Series.toList_push, List.mem_append, List.mem_singleton] at hd
  rcases hd with hd | rfl
  · exact (State.from_iff.1 h).2 d hd
  · exact Delay.from_iff.2 ⟨hc, hs⟩

/-- A throw of the dice. -/
theorem roll_alike (low high : Int) : Alike S (fun _ => True) (Run.change (·.roll low high)) := by
  intro g c H hg hh
  unfold Run.change Engine.roll
  simp only [Engine.state_withMemory]
  cases g.state.dice.roll? low high with
  | none => exact .ends (.error _) hg hh
  | some r =>
    exact .ends (g := g.withState { g.state with dice := r.2 }) (.any _) (hg.withState hg.state)
      (hh.withState hh.state)

/-! ### Mutations -/

namespace Mutation

theorem requireKind_alike (category : String) (declared : Schema → String → Bool) :
    Alike S (fun _ => True) (requireKind category declared) := .look fun _ _ _ => rfl

theorem requireInside_alike : ∀ goal : Option Coord, Alike S (fun _ => True) (requireInside goal)
  | none => .plain ()
  | some _ => .look fun _ _ _ => rfl

theorem entity_alike (name : String) : Alike S (Entity.From S) (Run.ask (·.entity name)) :=
  .ask (fun _ _ _ => rfl) fun _ hg => Engine.entity_from hg name

theorem mutable_alike (name : String) :
    Alike S (fun o => ∀ e ∈ o, e.From S) (Mutation.mutable name) :=
  (entity_alike name).bind fun e he => by
    cases hi : e.immutable with
    | true => exact .result (by simp)
    | false => exact .result (by simpa using he)

theorem store_alike {e : Entity} (he : e.From S) (name : String) :
    Alike S (fun _ => True) (store name e) :=
  .update (w := fun s => { s with entities := s.entities.insert name e }) fun s hs =>
    hs.insert he name s.occupancy

theorem board_alike (change : Occupancy → Occupancy) : Alike S (fun _ => True) (board change) :=
  .update (w := fun s => { s with occupancy := change s.occupancy }) fun _ hs => hs

theorem place_alike (name : String) : ∀ goal : Option Coord,
    Alike S (fun _ => True) (place name goal)
  | none => .plain ()
  | some c => board_alike (·.place name c)

theorem modify_alike {change : Entity → Entity} (hc : ∀ e, e.From S → (change e).From S)
    (name : String) : Alike S (fun _ => True) (modify name change) :=
  (entity_alike name).bind fun e he => store_alike (hc e he) name

/-- To add an entity ends alike on twins. -/
theorem insert_alike {e : Entity} (he : e.From S) : Alike S (fun _ => True) (insert e) :=
  (Alike.look fun _ _ _ => rfl).bind fun _ _ => (Alike.look fun _ _ _ => rfl).bind fun _ _ =>
    (requireInside_alike _).bind fun _ _ => (place_alike _ _).bind fun _ _ => store_alike he _

theorem edit_alike {change : Entity → Except Fault (Option Entity)}
    (hc : ∀ e, e.From S → Gives (fun o => ∀ e' ∈ o, e'.From S) (change e)) (name category : String)
    (declared : Schema → String → Bool) :
    Alike S (fun _ => True) (edit name category declared change) := by
  refine (requireKind_alike _ _).bind fun _ _ => (mutable_alike name).bind fun o ho => ?_
  cases o with
  | none => exact .plain false
  | some e =>
    refine (Alike.ask (fun _ _ _ => rfl) fun _ _ => hc e (ho e rfl)).bind fun o ho => ?_
    cases o with
    | none => exact .plain false
    | some e' => exact (store_alike (ho e' rfl) name).bind fun _ _ => .plain true

theorem changeStat_alike (name stat : String) (change : StatChange) :
    Alike S (fun _ => True) (changeStat name stat change) := by
  refine edit_alike (fun e he => ?_) name stat _
  split
  · exact .ok fun e' h => Option.some.inj h ▸ he
  · exact .error _

theorem setString_alike (name string value : String) :
    Alike S (fun _ => True) (setString name string value) :=
  edit_alike (fun _ he => .ok fun _ h => Option.some.inj h ▸ he) name string _

theorem appendItem_alike (name list : String) {item : Item} (hi : item.From S) :
    Alike S (fun _ => True) (appendItem name list item) := by
  refine edit_alike (fun e he => .ok fun e' h => ?_) name list _
  exact Option.some.inj h ▸ he.append (by simpa using hi) list

theorem removeItem_alike (name list : String) (item : Item) :
    Alike S (fun _ => True) (removeItem name list item) := by
  refine edit_alike (fun e he => ?_) name list _
  split
  · exact .ok fun e' h => nomatch h
  · exact .ok fun e' h => he.remove h

theorem travel_alike (name : String) (goal : Option Coord) :
    Alike S (fun _ => True) (travel name goal) := by
  refine (mutable_alike name).bind fun o _ => ?_
  cases o with
  | none => exact .plain false
  | some e =>
    have moved (e : Entity) (he : e.From S) : ({ e with location := goal } : Entity).From S := he
    exact (requireInside_alike goal).bind fun _ _ => (board_alike (·.move name goal)).bind fun _ _ =>
      (modify_alike moved name).bind fun _ _ => .plain true

theorem delete_alike (name : String) : Alike S (fun _ => True) (delete name) := by
  refine (mutable_alike name).bind fun o _ => ?_
  cases o with
  | none => exact .plain false
  | some e =>
    have erase : Alike S (fun _ => True) (Run.update (·.erase name)) :=
      .update (w := fun s => { s with entities := s.entities.erase name }) fun s hs =>
        hs.erase name s.occupancy
    exact erase.bind fun _ _ => (board_alike _).bind fun _ _ => .plain true

/-- A free name is found alike on twins, after as many tries. -/
theorem freeName_alike (template : String) : ∀ tries,
    Alike S (fun _ => True) (freeName template tries)
  | 0 => .outOfFuel
  | tries + 1 => by
    have counts : Alike S (fun _ => True) (count template) :=
      (entity_alike template).bind fun e he =>
        (store_alike (e := { e with recruited := e.recruited + 1 }) he template).bind fun _ _ =>
          .plain _
    refine counts.bind fun n _ => (Alike.look fun _ _ _ => rfl).bind fun taken _ => ?_
    cases taken with
    | true => exact freeName_alike template tries
    | false => exact .plain _

theorem admits_alike (owner : Option String) (list : String) :
    Alike S (fun _ => True) (admits owner list) := by
  cases owner with
  | none => exact .plain true
  | some owner =>
    exact (requireKind_alike _ _).bind fun _ _ => (entity_alike owner).bind fun _ _ => .plain _

theorem enlist_alike (owner : Option String) (list name : String) :
    Alike S (fun _ => True) (enlist owner list name) := by
  cases owner with
  | none => exact .plain ()
  | some owner => exact modify_alike (fun _ he => he.append (by simp) list) owner

theorem join_alike (template : String) (location : Option Coord) (owner : Option String)
    (list : String) : Alike S (fun _ => True) (join template location owner list) :=
  (Alike.look fun _ _ _ => rfl).bind fun entities _ =>
    (freeName_alike template (entities + 1)).bind fun name _ =>
      (entity_alike template).bind fun _ he => (place_alike name location).bind fun _ _ =>
        (store_alike (he.recruit name location) name).bind fun _ _ =>
          (enlist_alike owner list name).bind fun _ _ => .plain name

theorem recruit_alike (template : String) (location : Option Coord) (owner list : Option String) :
    Alike S (fun _ => True) (recruit template location owner list) := by
  refine (entity_alike template).bind fun _ _ => (admits_alike _ _).bind fun admitted _ => ?_
  cases admitted with
  | false => exact .plain none
  | true =>
    exact (requireInside_alike location).bind fun _ _ =>
      (join_alike template location owner _).bind fun name _ => .plain (some name)

end Mutation

/-! ### Scripts -/

namespace Change

variable {a : Arguments}

theorem each_alike {edit : String → Run Bool} (h : ∀ name, Alike S (fun _ => True) (edit name))
    (names : List String) : Alike S (Value.From S) (each names edit) :=
  (Alike.sweep h names).bind fun b _ => .result (Value.from_bool b)

theorem stat_alike (a : Arguments) (change : Int → StatChange) :
    Alike S (Value.From S) (stat a change) :=
  (Alike.look (by simp)).bind fun names _ => (Alike.look (by simp)).bind fun stat _ =>
    (Alike.look (by simp)).bind fun _ _ =>
      each_alike (fun name => Mutation.changeStat_alike name stat _) names

theorem list_alike (ha : a.From S) {edit : String → String → Item → Run Bool}
    (h : ∀ name list item, item.From S → Alike S (fun _ => True) (edit name list item)) :
    Alike S (Value.From S) (list a edit) :=
  (Alike.look (by simp)).bind fun names _ => (Alike.look (by simp)).bind fun list _ =>
    (Alike.ask (by simp) fun _ hg => Engine.resolve_from hg _ (ha.get 2)).bind fun v hv =>
      (Alike.ask (fun _ _ _ => rfl) fun _ _ item hi => Item.from_ofValue hi hv).bind fun item hi =>
        each_alike (fun name => h name list item hi) names

theorem enlist_alike (a : Arguments) : Alike S (Value.From S) (enlist a) :=
  (Alike.look (by simp)).bind fun _ _ => (Alike.look (by simp)).bind fun _ _ =>
    (Alike.look (by simp)).bind fun _ _ => (Alike.look (by simp [listName?])).bind fun _ _ =>
      (Mutation.recruit_alike _ _ _ _).bind fun name _ =>
        .result (Value.from_elim Value.from_ref name)

/-- An edit ends alike on twins. -/
theorem run_alike (ha : a.From S) (c : Change) : Alike S (Value.From S) (c.run a) := by
  cases c with
  | statAdd | statSub | statSet => exact stat_alike a _
  | stringSet =>
    exact (Alike.look (by simp)).bind fun names _ => (Alike.look (by simp)).bind fun string _ =>
      (Alike.look (by simp)).bind fun value _ =>
        each_alike (fun name => Mutation.setString_alike name string value) names
  | listAdd => exact list_alike ha fun name list _ hi => Mutation.appendItem_alike name list hi
  | listRemove => exact list_alike ha fun name list item _ => Mutation.removeItem_alike name list item
  | travel =>
    exact (Alike.look (by simp)).bind fun names _ => (Alike.look (by simp)).bind fun goal _ =>
      each_alike (fun name => Mutation.travel_alike name goal) names
  | delete =>
    exact (Alike.look (by simp)).bind fun names _ => each_alike Mutation.delete_alike names
  | recruit => exact enlist_alike a

end Change

/-- The script that refused a move, if one did, is from a collection. -/
def Check.From (S : Script → Prop) : Check → Prop
  | .passed => True
  | .refused s => S s

/-- Powers that end alike on twins. -/
structure Powers.Alike (S : Script → Prop) (p : Powers) : Prop where
  test : ∀ c, Tabletop.Alike S (Check.From S) (p.test c)
  perform : ∀ casters targets moves,
    Tabletop.Alike S (fun _ => True) (p.perform casters targets moves)
  pass : ∀ n, Tabletop.Alike S (fun _ => True) (p.pass n)

namespace Interpreter

variable {p : Powers} {a : Arguments}

theorem control_alike (hp : p.Alike S) (ha : a.From S) (c : Control) :
    ScopedAlike S (Value.From S) (control p c a) := by
  cases c with
  | roll =>
    exact (ScopedAlike.run (.look (by simp [Query.integers]))).bind fun (low, high) _ =>
      (ScopedAlike.run (roll_alike low high)).bind fun n _ =>
        .result (Value.from_int n)
  | test =>
    exact (ScopedAlike.run (.look (by simp))).bind fun _ _ =>
      (ScopedAlike.run (.look (by simp))).bind fun _ _ =>
        (ScopedAlike.run (.look (by simp))).bind fun _ _ =>
          (ScopedAlike.run (hp.test _)).bind fun _ _ => .result (Value.from_bool _)
  | perform =>
    exact (ScopedAlike.run (.look (by simp))).bind fun _ _ =>
      (ScopedAlike.run (.look (by simp))).bind fun _ _ =>
        (ScopedAlike.run (.look (by simp))).bind fun _ _ =>
          (ScopedAlike.run (hp.perform _ _ _)).bind fun _ _ => .result (Value.from_bool _)
  | delay =>
    refine (ScopedAlike.run (.look (by simp))).bind fun ticks _ => ?_
    refine (ScopedAlike.run (.ask (by simp) fun _ hg => Engine.resolve_from hg _ (ha.get 1))).bind
      fun v hv => ?_
    refine (ScopedAlike.run (callback_alike hv)).bind fun callback hc => ?_
    refine ScopedAlike.getScope.bind fun scope hs => ?_
    refine (ScopedAlike.run (schedule_alike hc ticks hs)).bind fun _ _ => ?_
    exact .result (Value.from_bool true)
  | advance =>
    exact (ScopedAlike.run (.look (by simp))).bind fun n _ =>
      (ScopedAlike.run (hp.pass n)).bind fun _ _ => .result (Value.from_bool true)

theorem call_alike (hp : p.Alike S) (ha : a.From S) (f : Builtin) :
    ScopedAlike S (Value.From S) (call p f a) := by
  cases f with
  | query q =>
    refine ScopedAlike.getScope.bind fun scope hs => ?_
    exact ScopedAlike.run (.ask (by simp) fun _ hg => q.answer_from hg hs ha)
  | assign =>
    refine (ScopedAlike.run (.look (by simp))).bind fun name _ => ?_
    refine (ScopedAlike.run (.ask (by simp) fun _ hg => Engine.resolve_from hg _ (ha.get 1))).bind
      fun v hv => ?_
    exact (ScopedAlike.store hv).bind fun _ _ => .result (Value.from_bool true)
  | change c => exact .run (Change.run_alike ha c)
  | control c => exact control_alike hp ha c

mutual

/-- **An expression evaluates alike on twins**, to a value with scripts from where they
were from before, or from compiling. -/
theorem eval_alike (hp : p.Alike S) : ∀ e : Expr, ScopedAlike S (Value.From S) (eval p e)
  | .literal l => by
    rw [eval]
    exact .result (Value.from_ofLiteral l)
  | .role r => by
    rw [eval]
    exact ScopedAlike.getScope.bind fun _ _ => .result (Value.from_elim Value.from_ref _)
  | .name name => by
    rw [eval]
    exact .result (Value.from_ref name)
  | .list items => by
    rw [eval]
    exact (evalAll_alike hp items).bind fun _ hvs => .result (Value.from_list.2 hvs)
  | .tuple items => by
    rw [eval]
    exact (evalAll_alike hp items).bind fun _ hvs => .result (Value.from_tuple.2 hvs)
  | .call target args variadic named => by
    rw [eval]
    exact (evalAll_alike hp args).bind fun _ hargs =>
      (evalAll_alike hp variadic).bind fun _ hvariadic =>
        (evalNamed_alike hp named).bind fun _ hnamed =>
          (ScopedAlike.run (.look fun _ _ _ => rfl)).bind fun f _ =>
            call_alike hp ⟨hargs, hvariadic, hnamed⟩ f

theorem evalAll_alike (hp : p.Alike S) : ∀ es : List Expr,
    ScopedAlike S (fun vs => ∀ v ∈ vs, v.From S) (evalAll p es)
  | [] => by
    rw [evalAll]
    exact .result fun _ h => nomatch h
  | e :: es => by
    rw [evalAll]
    exact (eval_alike hp e).bind fun v hv => (evalAll_alike hp es).bind fun vs hvs =>
      .result (List.forall_mem_cons.2 ⟨hv, hvs⟩)

theorem evalNamed_alike (hp : p.Alike S) : ∀ es : List (String × Expr),
    ScopedAlike S (fun vs => ∀ v ∈ vs, v.2.From S) (evalNamed p es)
  | [] => by
    rw [evalNamed]
    exact .result fun _ h => nomatch h
  | (name, e) :: es => by
    rw [evalNamed]
    exact (eval_alike hp e).bind fun v hv => (evalNamed_alike hp es).bind fun vs hvs =>
      .result (List.forall_mem_cons.2 ⟨hv, hvs⟩)

end

/-- A script runs alike on twins, whatever its code. -/
theorem run_alike (hp : p.Alike S) (s : Script) : ScopedAlike S (Value.From S) (run p s) :=
  eval_alike hp s.code

end Interpreter

/-! ### Moves and callbacks -/

namespace Move

variable {run : Runner}

theorem requires_alike (h : ∀ s, ScopedAlike S (Value.From S) (run s)) :
    ∀ ss : List Script, (∀ s ∈ ss, S s) → ScopedAlike S (Check.From S) (requires run ss)
  | [], _ => .result trivial
  | s :: ss, hss => by
    rw [List.forall_mem_cons] at hss
    refine (h s).bind fun v _ => (ScopedAlike.run (.look (by simp))).bind fun pass _ => ?_
    cases pass
    · exact .result hss.1
    · exact requires_alike h ss hss.2

theorem effects_alike (h : ∀ s, ScopedAlike S (Value.From S) (run s)) :
    ∀ ss : List Script, ScopedAlike S (fun _ => True) (effects run ss)
  | [] => .result trivial
  | s :: ss => (h s).bind fun _ _ => effects_alike h ss

theorem mover_alike : ScopedAlike S (fun _ => True) mover :=
  ScopedAlike.getScope.bind fun s _ => by
    cases s.bindings.mover with
    | none => exact .throw _
    | some name => exact .result trivial

theorem check_alike (h : ∀ s, ScopedAlike S (Value.From S) (run s)) :
    ScopedAlike S (Check.From S) (check run) :=
  mover_alike.bind fun name _ =>
    (ScopedAlike.run (.ask (by simp) fun _ hg => Engine.inheritedScripts_from hg name _)).bind
      fun ss hss => requires_alike h ss hss

theorem make_alike (h : ∀ s, ScopedAlike S (Value.From S) (run s)) :
    ScopedAlike S (Check.From S) (make run) :=
  (check_alike h).bind fun verdict hv => by
    cases verdict with
    | refused s => exact .result hv
    | passed =>
      exact mover_alike.bind fun _ _ => (ScopedAlike.run (.look (by simp))).bind fun ss _ =>
        (effects_alike h ss).bind fun _ _ => .result trivial

theorem test_alike (h : ∀ s, ScopedAlike S (Value.From S) (run s)) (c : Choice) :
    Alike S (Check.From S) (test run c) :=
  (Alike.look (by simp)).bind fun _ _ => (Alike.look (by simp)).bind fun _ _ =>
    (Alike.look (by simp)).bind fun _ _ => (check_alike h).within (Scope.from_empty _)

theorem attempt_alike (h : ∀ s, ScopedAlike S (Value.From S) (run s)) (c : Choice) :
    Alike S (fun _ => True) (attempt run c) :=
  ((make_alike h).within (Scope.from_empty _)).bind fun verdict _ => by
    cases verdict with
    | refused _ => exact .plain false
    | passed =>
      exact (Alike.update (w := fun s => { s with log := s.log.push ⟨s.time, c⟩ })
        fun _ hs => hs).bind fun _ _ => .plain true

/-- Selectors are performed alike on twins. -/
theorem perform_alike (h : ∀ s, ScopedAlike S (Value.From S) (run s))
    (casters targets moves : Selector) :
    Alike S (fun _ => True) (perform run casters targets moves) :=
  (Alike.look (by simp)).bind fun casters _ => (Alike.look (by simp)).bind fun targets _ =>
    (Alike.look (by simp)).bind fun moves _ =>
      .sweep (fun caster => .sweep (fun target =>
        .sweep (fun mover => attempt_alike h ⟨caster, target, mover⟩) moves) targets) casters

theorem tickRule_alike (h : ∀ s, ScopedAlike S (Value.From S) (run s)) :
    Alike S (fun _ => True) (tickRule run) := by
  have looks (g : Engine) : tickRule run g =
      (if g.contains g.config.tickRule then do
        let rule := g.config.tickRule
        let _ ← (make run).within { bindings := .ofChoice ⟨rule, rule, rule⟩ }
      else pure ()) g := by
    show (if _ then _ else _ : Run Unit) g = _
    rfl
  intro g c H hg hh
  rw [looks, looks, Engine.contains_withMemory, Engine.config_withMemory]
  split
  · exact ((make_alike h).within (Scope.from_empty _)).done g c H hg hh
  · exact Alike.plain () g c H hg hh

end Move

theorem Delay.fire_alike {run : Runner} (h : ∀ s, ScopedAlike S (Value.From S) (run s)) {d : Delay}
    (hd : d.From S) : Alike S (fun _ => True) (d.fire run) := by
  have hs := (Delay.from_iff.1 hd).2
  unfold Delay.fire
  split
  · exact ((h _).within hs).done
  · exact (Alike.look (by simp)).bind fun _ _ => ((Move.make_alike h).within (hs.bind _)).done

/-! ### Time -/

namespace Clock

variable {fire : Delay → Run Unit} {tick : Run Unit}

theorem takeDue_alike : Alike S (fun ds => ∀ d ∈ ds, d.From S) takeDue := by
  intro g c H hg hh
  have queue := (State.from_iff.1 hg.state).2
  have left : (withoutDue g).state.From S := hg.state.wait fun d hd => by
    rw [Series.toList_filter] at hd
    exact queue d (List.mem_filter.1 hd).1
  refine .ends (g := withoutDue g) (.ok fun d hd => ?_) (hg.withState left) (hh.withState left)
  rw [Series.toList_filter] at hd
  exact queue d (List.mem_filter.1 hd).1

theorem fireAll_alike (hf : ∀ d, d.From S → Alike S (fun _ => True) (fire d)) :
    ∀ ds : List Delay, (∀ d ∈ ds, d.From S) → Alike S (fun _ => True) (fireAll fire ds)
  | [], _ => .result trivial
  | d :: ds, hds => by
    rw [List.forall_mem_cons] at hds
    refine Alike.bind (.orElse (hf d hds.1) fun fault => ?_) fun _ _ => fireAll_alike hf ds hds.2
    refine Alike.bind (.update (w := (·.requeue ds)) fun s hs => hs.wait fun d hd => ?_) fun _ _ =>
      .throw fault
    rw [Series.toList_ofList, List.mem_append] at hd
    exact hd.elim (hds.2 d) ((State.from_iff.1 hs).2 d)

theorem drain_alike (hf : ∀ d, d.From S → Alike S (fun _ => True) (fire d)) :
    ∀ scans : Nat, Alike S (fun _ => True) (drain fire scans)
  | 0 => .outOfFuel
  | scans + 1 => takeDue_alike.bind fun due hdue => by
      cases due with
      | nil => exact .result trivial
      | cons d ds => exact (fireAll_alike hf _ hdue).bind fun _ _ => drain_alike hf scans

theorem step_alike (ht : Alike S (fun _ => True) tick) {scans : Nat}
    (hd : Alike S (fun _ => True) (drain fire scans)) :
    Alike S (fun _ => True) (step fire tick scans) := by
  have recorded : Alike S (fun _ => True) (Run.update Engine.record) := fun g c H hg hh =>
    .ends (g := g.record) (.any _) hg.record hh.record
  have aged (s : State) (hs : s.From S) : { s with delays := s.delays.map Delay.age }.From S := by
    refine hs.wait fun d hd => ?_
    rw [Series.toList_map] at hd
    obtain ⟨younger, hy, rfl⟩ := List.mem_map.1 hd
    exact (State.from_iff.1 hs).2 younger hy
  exact recorded.bind fun _ _ =>
    (Alike.update (w := fun s => { s with time := s.time + 1 }) fun _ hs => hs).bind fun _ _ =>
      ht.bind fun _ _ => (Alike.update aged).bind fun _ _ => hd

theorem pass_alike (ht : Alike S (fun _ => True) tick) {scans : Nat}
    (hd : Alike S (fun _ => True) (drain fire scans)) (n : Int) :
    Alike S (fun _ => True) (pass fire tick scans n) := by
  refine hd.bind fun _ _ => ?_
  induction n.toNat with
  | zero => exact .result trivial
  | succ n ih => exact (step_alike ht hd).bind fun _ _ => ih

end Clock

/-! ### Fuel -/

/-- **What a script can set going ends alike on twins.** -/
theorem powers_alike : ∀ fuel, (powers fuel).Alike S
  | 0 =>
    { test := fun _ => .outOfFuel
      perform := fun _ _ _ => .outOfFuel
      pass := fun _ => .outOfFuel }
  | fuel + 1 =>
    have run := Interpreter.run_alike (powers_alike fuel)
    have drain := Clock.drain_alike (fun _ => Delay.fire_alike run) fuel
    { test := Move.test_alike run
      perform := Move.perform_alike run
      pass := Clock.pass_alike (Move.tickRule_alike run) drain }

theorem runner_alike (fuel : Nat) (s : Script) : ScopedAlike S (Value.From S) (runner fuel s) :=
  Interpreter.run_alike (powers_alike fuel) s

namespace Game

theorem compile_alike (raw : String) : Alike S S (compile raw) := Tabletop.compile_alike raw

theorem compileAll_alike : ∀ raws : List String,
    Alike S (fun ss => ∀ s ∈ ss, S s) (compileAll raws)
  | [] => .result fun _ h => nomatch h
  | raw :: raws => (compile_alike raw).bind fun _ hs => (compileAll_alike raws).bind fun _ hss =>
      .result (List.forall_mem_cons.2 ⟨hs, hss⟩)

theorem load_alike (d : Entity.Definition) : Alike S (fun _ => True) (load d) :=
  (compileAll_alike d.require).bind fun _ hr => (compileAll_alike d.effect).bind fun _ he =>
    Mutation.insert_alike (Entity.from_ofDefinition d hr he)

theorem loadAll_alike : ∀ ds : List Entity.Definition, Alike S (fun _ => True) (loadAll ds)
  | [] => .plain ()
  | d :: ds => (load_alike d).bind fun _ _ => loadAll_alike ds

theorem evaluate_alike (fuel : Nat) (source : String) (bindings : Bindings) :
    Alike S (Value.From S) (evaluate fuel source bindings) :=
  (compile_alike source).bind fun s _ =>
    ((runner_alike fuel s).within (Scope.from_empty bindings)).bind fun v hv =>
      .ask (by simp) fun _ hg => Engine.resolve_from hg v hv

theorem drain_alike (fuel : Nat) : Alike S (fun _ => True) (drain fuel) :=
  Clock.drain_alike (fun _ => Delay.fire_alike (runner_alike fuel)) fuel

theorem pass_alike (fuel : Nat) (n : Int) : Alike S (fun _ => True) (pass fuel n) :=
  Clock.pass_alike (Move.tickRule_alike (runner_alike fuel)) (drain_alike fuel) n

end Game

end Tabletop
