/-
# Changes are local, and leave nothing half done

A change asked for from outside (adding an entity, editing one, moving, recruiting
or deleting it) makes several writes: to the table, to both sides of the board, to the
count of a template.  A write is not taken back where something fails behind it; but
nothing does, as everything was checked before (`Mutation.Ending`).  So the change
either leaves the engine as it was, or says whom it changed (`Operation.changed?`).
Then everybody else is as before, stands where they stood and in the same order, and so
is everything that is nobody's (`Engine.DiffersAt`).

A definition is compiled before its entity is added.  The texts compiled so far are not
part of the state, and they stay compiled even where the entity is refused.
-/

import Tabletop.Proofs.Genuine

namespace Tabletop
namespace Occupancy

/-- Only some names may stand elsewhere than before; the others stand where they stood,
in the same order. -/
structure DiffersAt (names : List String) (o o' : Occupancy) : Prop where
  location : ∀ other ∉ names, o'.location other = o.location other
  standing : ∀ c, (o'.standing c).filter (· ∉ names) = (o.standing c).filter (· ∉ names)

variable {o : Occupancy} {name : String} {names : List String}

theorem DiffersAt.refl (names : List String) (o : Occupancy) : o.DiffersAt names o :=
  ⟨fun _ _ => rfl, fun _ => rfl⟩

/-- To take a name out of a row leaves the others in it. -/
theorem filter_row_detach (h : name ∈ names) (cells : Std.ExtTreeMap Coord (Series String))
    (c c' : Coord) : (row (detach cells name c) c').filter (· ∉ names) =
      (row cells c').filter (· ∉ names) := by
  rw [row_detach]
  split
  · next same =>
    rw [← same, List.filter_filter]
    refine List.filter_congr fun other _ => ?_
    by_cases ho : other ∈ names
    · simp [ho]
    · have apart : other ≠ name := fun e => ho (e ▸ h)
      simp [ho, apart]
  · rfl

/-- To put a name into a row leaves the others in it. -/
theorem filter_row_attach (h : name ∈ names) (cells : Std.ExtTreeMap Coord (Series String))
    (c c' : Coord) : (row (attach cells name c) c').filter (· ∉ names) =
      (row cells c').filter (· ∉ names) := by
  rw [row_attach]
  split
  · next same => simp [same, h]
  · rfl

/-- To place a name is about no other. -/
theorem DiffersAt.place (h : name ∈ names) (o : Occupancy) (c : Coord) :
    o.DiffersAt names (o.place name c) where
  location other ho := by
    rw [location_place, if_neg]
    exact fun same => ho (same ▸ h)
  standing c' := by
    unfold Occupancy.place
    split
    · split
      · rfl
      · exact (filter_row_attach h _ _ _).trans (filter_row_detach h _ _ _)
    · exact filter_row_attach h _ _ _

/-- To take a name off the board is about no other. -/
theorem DiffersAt.remove (h : name ∈ names) (o : Occupancy) : o.DiffersAt names (o.remove name) where
  location other ho := by
    rw [location_remove, if_neg]
    exact fun same => ho (same ▸ h)
  standing c := by
    unfold Occupancy.remove
    split
    · exact filter_row_detach h _ _ _
    · rfl

/-- To move a name is about no other. -/
theorem DiffersAt.move (h : name ∈ names) (o : Occupancy) (goal : Option Coord) :
    o.DiffersAt names (o.move name goal) := by
  cases goal with
  | none => exact .remove h o
  | some c => exact .place h o c

/-- Someone who arrives is put on the board, or stays off it. -/
theorem DiffersAt.arrive (h : name ∈ names) (o : Occupancy) (goal : Option Coord) :
    o.DiffersAt names (goal.elim o (o.place name)) := by
  cases goal with
  | none => exact .refl names o
  | some c => exact .place h o c

end Occupancy

namespace Engine

/-- Only the entities of some names may differ, and where they stand; everybody else,
the clock, the waiting delays, the dice, the log, the history and what the game fixes
are as before. -/
structure DiffersAt (names : List String) (g h : Engine) : Prop extends g.Keeps h where
  entity? : ∀ other ∉ names, h.entity? other = g.entity? other
  occupancy : g.state.occupancy.DiffersAt names h.state.occupancy
  dice : h.state.dice = g.state.dice
  log : h.state.log = g.state.log

variable {g h : Engine} {name : String} {names : List String}

/-- A change of table and board differs where these do. -/
theorem DiffersAt.withTables {entities : Std.ExtTreeMap String Entity} {occupancy : Occupancy}
    (he : ∀ other ∉ names, entities[other]? = g.entity? other)
    (ho : g.state.occupancy.DiffersAt names occupancy) :
    g.DiffersAt names (g.withTables entities occupancy) where
  toKeeps := ⟨rfl, rfl, rfl, rfl, rfl, rfl⟩
  entity? := he
  occupancy := ho
  dice := rfl
  log := rfl

/-- What differs from an engine differs so from one with other texts compiled. -/
theorem DiffersAt.of_cached {cache : Std.ExtTreeMap String Script}
    (k : DiffersAt names { g with cache } h) : g.DiffersAt names h where
  toKeeps := ⟨k.registry, k.config, k.schema, k.time, k.delays, k.history⟩
  entity? := k.entity?
  occupancy := k.occupancy
  dice := k.dice
  log := k.log

/-- An entity that is stored is stored for nobody else. -/
theorem DiffersAt.stored (hn : name ∈ names) (e : Entity) {o : Occupancy}
    (ho : g.state.occupancy.DiffersAt names o) :
    g.DiffersAt names (g.withTables (g.state.entities.insert name e) o) := by
  refine .withTables (fun other hother => ?_) ho
  rw [Std.ExtTreeMap.getElem?_insert, if_neg]
  · rfl
  · rw [Std.compare_eq_iff_eq]
    exact fun same => hother (same ▸ hn)

/-- An entity that is erased is erased for nobody else. -/
theorem DiffersAt.erased (hn : name ∈ names) {o : Occupancy}
    (ho : g.state.occupancy.DiffersAt names o) :
    g.DiffersAt names (g.withTables (g.state.entities.erase name) o) := by
  refine .withTables (fun other hother => ?_) ho
  rw [Std.ExtTreeMap.getElem?_erase, if_neg]
  · rfl
  · rw [Std.compare_eq_iff_eq]
    exact fun same => hother (same ▸ hn)

/-- A recruit is news to its template and its owner. -/
theorem DiffersAt.joined (g : Engine) (template : String) (e : Entity) (n : UInt32)
    (location : Option Coord) (owner : Option String) (list : String) :
    g.DiffersAt (recruitName template n :: template :: owner.toList)
      (g.withTables (g.joined template e n location owner list)
        (location.elim g.state.occupancy (g.state.occupancy.place (recruitName template n)))) := by
  refine .withTables (fun other ho => ?_) (.arrive List.mem_cons_self _ _)
  rw [List.mem_cons, List.mem_cons, not_or, not_or, Option.mem_toList] at ho
  obtain ⟨recruit, counted, enlisted⟩ := ho
  rw [getElem?_joined, if_neg (Ne.symm recruit), if_neg (Ne.symm counted)]
  simp only [if_neg enlisted, Option.map_id']

end Engine

/-- The entity of a definition has its name. -/
theorem Entity.name_ofDefinition (d : Definition) (require effect : List Script) :
    (ofDefinition d require effect).name = d.name := by
  have fold {α : Type} {f : Entity → α → Entity} (as : List α) {e : Entity} (he : e.name = d.name)
      (hf : ∀ e a, (f e a).name = e.name) : (as.foldl f e).name = d.name :=
    List.foldlRecOn as f (motive := fun e => e.name = d.name) he fun e he a _ => (hf e a).trans he
  unfold ofDefinition
  dsimp only
  refine fold effect ?_ fun _ _ => rfl
  refine fold require ?_ fun _ _ => rfl
  refine fold d.strings.toList ?_ fun _ _ => rfl
  refine fold d.lists.toList ?_ fun _ _ => rfl
  exact fold d.stats.toList rfl fun _ _ => rfl

/-- To compile texts has an outcome and compiles texts. -/
theorem Game.exists_compileAll (raws : List String) (g : Engine) :
    ∃ r cache, compileAll raws g = some (r, { g with cache }) := by
  induction raws generalizing g with
  | nil => exact ⟨_, g.cache, rfl⟩
  | cons raw raws ih =>
    have one : ∃ r cache, compile raw g = some (r, { g with cache }) := by
      unfold compile Run.change Engine.compile
      cases hs : g.cache[raw]? with
      | some s => exact ⟨.ok s, g.cache, by simp only [hs]⟩
      | none => cases hc : g.registry.compile raw with
        | error cause => exact ⟨.error (.script raw cause), g.cache, by simp only [hs, hc]⟩
        | ok s => exact ⟨.ok s, g.cache.insert raw s, by simp only [hs, hc]⟩
    obtain ⟨r | s, cache, ks⟩ := one
    · exact ⟨_, cache, Run.bind_apply_error ks⟩
    obtain ⟨r | ss, cache', kss⟩ := ih { g with cache }
    · exact ⟨_, cache', (Run.bind_apply_ok ks).trans (Run.bind_apply_error kss)⟩
    · exact ⟨_, cache', (Run.bind_apply_ok ks).trans (Run.bind_apply_ok kss)⟩

namespace Operation

/-- The operations that change entities, asked for from outside. -/
def Mutates : Operation → Prop
  | insert _ | load _ | changeStat .. | setString .. | appendItem .. | removeItem .. | travel ..
  | recruit .. | delete _ => True
  | _ => False

/-- Who is changed, as the answer tells; none if nothing is. -/
def changed? : (op : Operation) → op.Answer → Option (List String)
  | insert e, _ => some [e.name]
  | load d, _ => some [d.name]
  | changeStat name .., true | setString name .., true | appendItem name .., true
  | removeItem name .., true | travel name _, true | delete name, true => some [name]
  | recruit template _ owner _, some name => some (name :: template :: owner.toList)
  | _, _ => none

/-- What becomes of an engine: it changes at the given names, or at most texts have been
compiled. -/
def Leaves (g h : Engine) : Option (List String) → Prop
  | some names => g.DiffersAt names h
  | none => h = { g with cache := h.cache }

/-- What becomes of an engine in an operation that tells whom it changes, if it ends. -/
def Settles {α : Type} (g : Engine) (changed? : α → Option (List String)) (stuck : Prop) :
    Option (Except Fault α × Engine) → Prop
  | some (r, h) => Leaves g h (r.toOption.bind changed?)
  | none => stuck

variable {g : Engine}

theorem Settles.of_ending {α : Type} {changes : α → Engine → Prop} {idle : α → Prop}
    {stuck stuck' : Prop} {o : Option (Except Fault α × Engine)}
    {changed? : α → Option (List String)} (k : Mutation.Ending g changes idle stuck o)
    (changed : ∀ {a h}, changes a h → Leaves g h (changed? a))
    (same : ∀ {a}, idle a → changed? a = none) (endless : stuck → stuck') :
    Settles g changed? stuck' o := by
  cases k with
  | changed k => exact changed k
  | @idle a k =>
    show Leaves g g (changed? a)
    rw [same k]
    exact rfl
  | failed fault => exact rfl
  | endless k => exact endless k

/-- A change of one entity, which answers whether there was any. -/
theorem Settles.of_edit {name : String} {changes : Bool → Engine → Prop} {stuck : Prop}
    {o : Option (Except Fault Bool × Engine)} {changed? : Bool → Option (List String)}
    (k : Mutation.Ending g changes (· = false) False o)
    (changed : ∀ {b h}, changes b h → b = true ∧ g.DiffersAt [name] h)
    (yes : changed? true = some [name]) (no : changed? false = none) :
    Settles g changed? stuck o := by
  refine .of_ending k (fun {b h} c => ?_) (fun e => by rw [e, no]) False.elim
  obtain ⟨rfl, differs⟩ := changed c
  rw [yes]
  exact differs

theorem Settles.edit (g : Engine) (name category : String) (declared : Schema → String → Bool)
    (change : Entity → Except Fault (Option Entity)) {stuck : Prop}
    {changed? : Bool → Option (List String)} (yes : changed? true = some [name])
    (no : changed? false = none) :
    Settles g changed? stuck (Mutation.edit name category declared change g) := by
  refine .of_edit (Mutation.edit_ending g name category declared change) (fun {b h} changes => ?_)
    yes no
  obtain ⟨rfl, _, e, e', _, _, _, rfl⟩ := changes
  exact ⟨rfl, .stored (List.mem_singleton_self _) e' (.refl _ _)⟩

/-- An entity is added, or nothing is changed. -/
theorem Settles.insert (g : Engine) (e : Entity) {stuck : Prop} :
    Settles g (fun _ => some [e.name]) stuck (Mutation.insert e g) := by
  refine .of_ending (Mutation.insert_ending g e) (fun {_ h} changes => ?_) False.elim False.elim
  obtain ⟨_, _, _, rfl⟩ := changes
  have here : e.name ∈ [e.name] := List.mem_singleton_self _
  exact Engine.DiffersAt.stored here e (.arrive here _ _)

/-- The texts of a definition are compiled, and then an entity is added. -/
theorem Settles.load (g : Engine) (d : Entity.Definition) {stuck : Prop} :
    Settles g (fun _ => some [d.name]) stuck (Game.load d g) := by
  obtain ⟨fault | require, cache, kr⟩ := Game.exists_compileAll d.require g
  · rw [Game.load, Run.bind_apply_error kr]
    exact rfl
  obtain ⟨fault | effect, cache', ke⟩ := Game.exists_compileAll d.effect { g with cache }
  · rw [Game.load, Run.bind_apply_ok kr, Run.bind_apply_error ke]
    exact rfl
  rw [Game.load, Run.bind_apply_ok kr, Run.bind_apply_ok ke]
  have settles : Settles _ _ stuck _ :=
    Settles.insert { g with cache := cache' } (.ofDefinition d require effect)
  rw [Entity.name_ofDefinition] at settles
  generalize Mutation.insert (.ofDefinition d require effect) { g with cache := cache' } = o
    at settles ⊢
  match o with
  | none => exact settles
  | some (.error fault, h) => exact settles
  | some (.ok _, h) => exact Engine.DiffersAt.of_cached settles

/-- **What changes entities changes those it names, or nothing at all.**  Failing or
refused, the operation leaves state and history as they were.  Otherwise everybody but whom
it names, the clock, the delays, the dice, the log and the history are as before; a
recruit's template and owner are named with it.  It has an outcome in every engine, but for
a recruit of a template all of whose numbers have taken names. -/
theorem all_or_nothing {op : Operation} (mutates : op.Mutates) (fuel : Nat) (g : Engine) :
    match op.answer fuel g with
    | some (r, h) =>
      match r.toOption.bind op.changed? with
      | none => h.state = g.state ∧ h.history = g.history
      | some names => g.DiffersAt names h
    | none => ∃ template location owner list, op = recruit template location owner list ∧
        ∀ n, g.contains (recruitName template n) := by
  have settles : Settles g op.changed? (∃ template location owner list,
      op = recruit template location owner list ∧ ∀ n, g.contains (recruitName template n))
      (op.answer fuel g) := by
    cases op with
    | insert e => exact .insert g e
    | load d => exact .load g d
    | changeStat name stat change => exact .edit g name stat _ _ rfl rfl
    | setString name string value => exact .edit g name string _ _ rfl rfl
    | appendItem name list item => exact .edit g name list _ _ rfl rfl
    | removeItem name list item => exact .edit g name list _ _ rfl rfl
    | travel name goal =>
      refine .of_edit (Mutation.travel_ending g name goal) (fun {b h} changes => ?_) rfl rfl
      obtain ⟨rfl, e, _, _, _, rfl⟩ := changes
      have here : name ∈ [name] := List.mem_singleton_self _
      exact ⟨rfl, .stored here _ (.move here _ goal)⟩
    | delete name =>
      refine .of_edit (Mutation.delete_ending g name) (fun {b h} changes => ?_) rfl rfl
      obtain ⟨rfl, e, _, _, rfl⟩ := changes
      have here : name ∈ [name] := List.mem_singleton_self _
      exact ⟨rfl, .erased here (.remove here _)⟩
    | recruit template location owner list =>
      refine .of_ending (Mutation.recruit_ending g template location owner list)
        (fun {name h} changes => ?_) (fun none => none ▸ rfl)
        fun taken => ⟨template, location, owner, list, rfl, taken⟩
      obtain ⟨e, n, _, _, _, _, rfl, rfl⟩ := changes
      exact Engine.DiffersAt.joined g template e n location owner _
    | _ => exact mutates.elim
  generalize op.answer fuel g = o at settles ⊢
  match o with
  | none => exact settles
  | some (r, h) =>
    have leaves : Leaves g h (r.toOption.bind op.changed?) := settles
    dsimp only
    split
    · next nothing =>
      rw [nothing] at leaves
      have same : h = { g with cache := h.cache } := leaves
      rw [same]
      exact ⟨rfl, rfl⟩
    · next names changed =>
      rw [changed] at leaves
      exact leaves

/-- A soldier that cannot be changed, but copied. -/
def soldier : Entity := { Entity.named "soldier" with immutable := true }

/-- Copying the soldier next to a spy changes the copy, the soldier and the player who
gets it, and neither the spy nor where the spy stands; the soldier is not deleted, and
then nothing is changed. -/
theorem all_or_nothing_soldier : ∃ g h m : Engine, Reachable g ∧
    (recruit "soldier" (some (.flat 1 1)) (some "player") (some groupList)).answer 0 g =
      some (.ok (some "soldier_1"), h) ∧
    g.DiffersAt ["soldier_1", "soldier", "player"] h ∧
    g.state.occupancy.location "spy" = some (.flat 1 1) ∧
    h.state.occupancy.standing (.flat 1 1) = ["spy", "soldier_1"] ∧
    (delete "soldier").answer 0 g = some (.ok false, m) ∧ m.state = g.state := by
  obtain ⟨start, hs⟩ : ∃ start, Engine.start {} {} = .ok start := ⟨_, rfl⟩
  obtain ⟨g, hg⟩ : ∃ g, [.named "player", { Entity.named "spy" with location := some (.flat 1 1) },
      soldier].forM Mutation.insert start = some (.ok (), g) := by
    cases hs
    exact ⟨_, rfl⟩
  have reachable : Reachable g := (Reachable.start hs).insertAll hg
  have copies : Mutates (recruit "soldier" (some (.flat 1 1)) (some "player") (some groupList)) :=
    trivial
  have deletes : Mutates (delete "soldier") := trivial
  have recruited := all_or_nothing copies 0 g
  have refused := all_or_nothing deletes 0 g
  cases hs
  cases hg
  exact ⟨_, _, _, reachable, rfl, recruited, rfl, rfl, rfl, refused.1⟩

end Operation
end Tabletop
