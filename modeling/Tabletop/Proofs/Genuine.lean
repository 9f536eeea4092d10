/-
# Scripts are genuine, and memory does not show

A script is genuine under a registry if its code is what its text means there.
Whoever plays a game writes texts and gets scripts for them (`Written`): by compiling,
loading and evaluating, in the answers of operations, and from wherever an engine
holds one.  If no operation is given other scripts, the engines it leads to
(`Authored`) hold genuine scripts only, each text remembered under itself
(`Authored.sound`); the two go together, as a script may be taken from one engine to
another.

So what compares equal by its texts is equal, and then neither the texts compiled so
far nor the history show in what an operation answers or leaves
(`Authored.memory_transparent`).
-/

import Tabletop.Proofs.Twins

namespace Tabletop

/-- The code of a script is what its text means. -/
def Genuine (r : Registry) (s : Script) : Prop := r.meaning s.raw = .ok s.code

variable {r : Registry} {S : Script → Prop}

/-- To compile is to give a text its meaning. -/
theorem Registry.compile_eq_ok_iff {raw : String} {s : Script} :
    r.compile raw = .ok s ↔ s.raw = raw ∧ Genuine r s := by
  unfold Registry.compile Genuine
  rw [Except.bind_eq_ok_iff]
  constructor
  · rintro ⟨code, hc, hs⟩
    cases hs
    exact ⟨rfl, hc⟩
  · rintro ⟨rfl, hs⟩
    exact ⟨s.code, hs, rfl⟩

/-- A text has one genuine script. -/
theorem legible_genuine (r : Registry) : Legible (Genuine r) := by
  rintro ⟨raw, code⟩ ⟨raw', code'⟩ hs ht rfl
  have same : (.ok code : Compiled) = .ok code' := hs.symm.trans ht
  cases same
  rfl

/-! ### Answers of operations -/

namespace Operation

/-- What an operation answers. -/
def Answer : Operation → Type
  | compile _ => Script
  | evaluate .. | runIn .. => Value
  | test _ => Check
  | changeStat .. | setString .. | appendItem .. | removeItem .. | travel .. | delete _
  | perform .. => Bool
  | recruit .. => Option String
  | roll .. => Int
  | insert _ | load _ | loadAll _ | pass _ | drain | schedule .. => Unit

/-- Does an operation on an amount of fuel, and answers. -/
def answer (fuel : Nat) : (op : Operation) → Run op.Answer
  | compile raw => Game.compile raw
  | insert e => Mutation.insert e
  | load d => Game.load d
  | loadAll ds => Game.loadAll ds
  | changeStat name stat change => Mutation.changeStat name stat change
  | setString name string value => Mutation.setString name string value
  | appendItem name list item => Mutation.appendItem name list item
  | removeItem name list item => Mutation.removeItem name list item
  | travel name goal => Mutation.travel name goal
  | recruit template location owner list => Mutation.recruit template location owner list
  | delete name => Mutation.delete name
  | evaluate source bindings => Game.evaluate fuel source bindings
  | runIn scope script => (runner fuel script).within scope
  | test c => Game.test fuel c
  | perform casters targets moves => Game.perform fuel casters targets moves
  | pass n => Game.pass fuel n
  | drain => Game.drain fuel
  | schedule callback ticks scope => Game.schedule callback ticks scope
  | roll low high => Game.roll low high

/-- An operation is done by having it answer and leaving the answer out. -/
theorem run_eq (op : Operation) (fuel : Nat) : op.run fuel = (do let _ ← op.answer fuel) := by
  have unit (x : Run Unit) : x = (do let _ ← x) := (bind_pure x).symm
  cases op with
  | insert | load | loadAll | pass | drain | schedule => exact unit _
  | _ => rfl

/-- The scripts an operation is given. -/
def scripts : Operation → List Script
  | insert e => e.scripts
  | appendItem _ _ item | removeItem _ _ item => item.script?.toList
  | runIn scope script => script :: scope.scripts
  | schedule callback _ scope => callback.scripts ++ scope.scripts
  | _ => []

/-- The scripts in an answer. -/
def answerScripts : (op : Operation) → op.Answer → List Script
  | compile _, s => [s]
  | evaluate .., v | runIn .., v => Value.scripts v
  | test _, .refused s => [s]
  | _, _ => []

/-- **An operation ends alike on twins**, with scripts that it was given, that were
there before, or that it compiled. -/
theorem answer_alike (op : Operation) (fuel : Nat) (given : ∀ s ∈ op.scripts, S s) :
    Alike S (fun a => ∀ s ∈ op.answerScripts a, S s) (op.answer fuel) := by
  have run := runner_alike (S := S) fuel
  cases op with
  | compile raw => exact (Game.compile_alike raw).imp fun s hs => by simpa [answerScripts] using hs
  | insert e => exact (Mutation.insert_alike given).imp fun _ _ _ h => nomatch h
  | load d => exact (Game.load_alike d).imp fun _ _ _ h => nomatch h
  | loadAll ds => exact (Game.loadAll_alike ds).imp fun _ _ _ h => nomatch h
  | changeStat name stat change =>
    exact (Mutation.changeStat_alike name stat change).imp fun _ _ _ h => nomatch h
  | setString name string value =>
    exact (Mutation.setString_alike name string value).imp fun _ _ _ h => nomatch h
  | appendItem name list item =>
    have hi : item.From S := fun s hs => given s (Option.mem_toList.2 hs)
    exact (Mutation.appendItem_alike name list hi).imp fun _ _ _ h => nomatch h
  | removeItem name list item =>
    exact (Mutation.removeItem_alike name list item).imp fun _ _ _ h => nomatch h
  | travel name goal =>
    exact (Mutation.travel_alike name goal).imp fun _ _ _ h => nomatch h
  | recruit template location owner list =>
    exact (Mutation.recruit_alike template location owner list).imp fun _ _ _ h => nomatch h
  | delete name => exact (Mutation.delete_alike name).imp fun _ _ _ h => nomatch h
  | evaluate source bindings => exact Game.evaluate_alike fuel source bindings
  | runIn scope script => exact (run script).within (List.forall_mem_cons.1 given).2
  | test c =>
    refine (Move.test_alike run c).imp fun verdict hv => ?_
    cases verdict with
    | passed => exact fun _ h => nomatch h
    | refused s => exact List.forall_mem_singleton.2 hv
  | perform casters targets moves =>
    exact (Move.perform_alike run casters targets moves).imp fun _ _ _ h => nomatch h
  | pass n => exact (Game.pass_alike fuel n).imp fun _ _ _ h => nomatch h
  | drain => exact (Game.drain_alike fuel).imp fun _ _ _ h => nomatch h
  | schedule callback ticks scope =>
    obtain ⟨hc, hs⟩ := List.forall_mem_append.1 given
    exact (schedule_alike hc ticks hs).imp fun _ _ _ h => nomatch h
  | roll low high => exact (roll_alike low high).imp fun _ _ _ h => nomatch h

end Operation

/-! ### Playing with written texts -/

mutual

/-- The engines a player gets to from the start of a game, giving operations only the
scripts of written texts. -/
inductive Authored (r : Registry) : Engine → Prop
  | start {config g} : Engine.start config r = .ok g → Authored r g
  | operate {g h x} (op : Operation) (fuel : Nat) : Authored r g →
      (∀ s ∈ op.scripts, Written r s) → op.run fuel g = some (x, h) → Authored r h
  | revert {g} (k : Nat) : Authored r g → Authored r (g.revert k).2
  | retrieve {g} (k : Nat) : Authored r g → Authored r (g.retrieve k).2
  | retrieved {g past} (k : Nat) : Authored r g → (g.retrieve k).1 = some past → Authored r past

/-- The scripts of written texts: those in the answers of operations, as of one that
compiles or evaluates a text, and those that an engine holds. -/
inductive Written (r : Registry) : Script → Prop
  | answered {g h s} (op : Operation) (fuel : Nat) {a : op.Answer} : Authored r g →
      (∀ t ∈ op.scripts, Written r t) → op.answer fuel g = some (.ok a, h) →
      s ∈ op.answerScripts a → Written r s
  | held {g s} : Authored r g → s ∈ g.scripts → Written r s

end

theorem Authored.reachable {g : Engine} : Authored r g → Reachable g
  | .start hs => .start hs
  | .operate op fuel hg _ k => .operate op fuel hg.reachable k
  | .revert k hg => .revert k hg.reachable
  | .retrieve k hg => .retrieve k hg.reachable
  | .retrieved k hg hp => .retrieved k hg.reachable hp

/-- No operation changes the registry. -/
theorem Operates.registry_eq {g h : Engine} (k : Operates g h) : h.registry = g.registry := by
  refine k.preserves (P := fun m => m.registry = g.registry) (fun s hm => ?_) id rfl
  cases s with
  | touch t => rwa [t.effect.keeps.registry]
  | schedule | tick | age | take => exact hm

/-- The start of a game holds no scripts. -/
theorem Engine.sound_start {config : Config} {g : Engine} (hs : Engine.start config r = .ok g) :
    g.registry = r ∧ g.Sound (Genuine r) := by
  obtain ⟨schema, _, hs⟩ := Except.bind_eq_ok_iff.1 hs
  cases hs
  refine ⟨rfl, ⟨fun raw s h => by simp at h, fun raw s h => ?_, fun s hs => ?_⟩⟩
  · exact (Registry.compile_eq_ok_iff.1 h).2
  · rcases List.mem_cons.1 hs with rfl | hs
    · intro s hs
      simp [State.scripts, State.start] at hs
    · cases List.mem_of_mem_take hs

/-- With the state of before or a frame, and the frames up to one, an engine is sound. -/
theorem Engine.Sound.back {g : Engine} (hg : g.Sound S) {k : Nat} {frame : State}
    {frames : List State} (hf : g.frame? k = some (frame, frames)) {state : State}
    (hs : state = frame ∨ state = g.state) :
    ({ g with state, history := .ofList frames } : Engine).Sound S where
  cached := hg.cached
  compiled := hg.compiled
  states := Always.back hg.states hf hs

namespace Engine

variable {g past : Engine} {k : Nat}

/-- A sound engine is sound after it was rolled back. -/
theorem Sound.revert (hg : g.Sound S) (k : Nat) : (g.revert k).2.Sound S := by
  obtain same | ⟨frame, frames, hf, same⟩ := g.revert_cases k
  · rwa [same]
  · rw [same]
    exact hg.back hf (.inl rfl)

/-- A sound engine is sound after a frame was taken out. -/
theorem Sound.retrieve (hg : g.Sound S) (k : Nat) : (g.retrieve k).2.Sound S := by
  obtain same | ⟨frame, frames, hf, same⟩ := g.retrieve_cases k
  · rwa [same]
  · rw [same]
    exact hg.back hf (.inr rfl)

/-- What is taken out of a sound engine is sound. -/
theorem Sound.retrieved (hg : g.Sound S) (hp : (g.retrieve k).1 = some past) : past.Sound S := by
  obtain ⟨frame, frames, hf, rfl⟩ := retrieve_eq_some hp
  exact hg.back hf (.inl rfl)

theorem registry_revert (g : Engine) (k : Nat) : (g.revert k).2.registry = g.registry := by
  obtain same | ⟨frame, frames, hf, same⟩ := g.revert_cases k <;> rw [same]

theorem registry_retrieve (g : Engine) (k : Nat) : (g.retrieve k).2.registry = g.registry := by
  obtain same | ⟨frame, frames, hf, same⟩ := g.retrieve_cases k <;> rw [same]

theorem registry_retrieved (hp : (g.retrieve k).1 = some past) : past.registry = g.registry := by
  obtain ⟨frame, frames, hf, rfl⟩ := retrieve_eq_some hp
  rfl

end Engine

mutual

/-- **An engine holds genuine scripts only**, and remembers each text under itself. -/
theorem Authored.sound {g : Engine} : Authored r g → g.registry = r ∧ g.Sound (Genuine r)
  | .start hs => Engine.sound_start hs
  | .operate (g := g) op fuel hg given k => by
    obtain ⟨registry, sound⟩ := hg.sound
    have genuine : ∀ s ∈ op.scripts, Genuine r s := fun s hs => (given s hs).genuine
    have alike := (op.answer_alike fuel genuine).done
    rw [← Operation.run_eq] at alike
    exact ⟨(Operates.registry_eq ⟨op, fuel, _, k⟩).trans registry, (alike.keeps sound k).2⟩
  | .revert (g := g) k hg => by
    obtain ⟨registry, sound⟩ := hg.sound
    exact ⟨(g.registry_revert k).trans registry, sound.revert k⟩
  | .retrieve (g := g) k hg => by
    obtain ⟨registry, sound⟩ := hg.sound
    exact ⟨(g.registry_retrieve k).trans registry, sound.retrieve k⟩
  | .retrieved k hg hp => by
    obtain ⟨registry, sound⟩ := hg.sound
    exact ⟨(Engine.registry_retrieved hp).trans registry, sound.retrieved hp⟩

/-- The scripts of written texts are genuine. -/
theorem Written.genuine {s : Script} : Written r s → Genuine r s
  | .answered (g := g) op fuel hg given k hs => by
    have genuine : ∀ t ∈ op.scripts, Genuine r t := fun t ht => (given t ht).genuine
    exact ((op.answer_alike fuel genuine).keeps hg.sound.2 k).1 _ rfl s hs
  | .held (g := g) hg hs => by
    obtain ⟨rfl, sound⟩ := hg.sound
    have compiled (raw : String) (s : Script) (h : g.cache[raw]? = some s) :=
      (Registry.compile_eq_ok_iff.1 (sound.cached raw s h)).2
    exact Engine.forall_mem_scripts.2 ⟨compiled, sound.states⟩ s hs

end

/-! ### Twins in play -/

/-- A sound engine is sound for any larger collection. -/
theorem Engine.Sound.widen {g : Engine} (hg : g.Sound S) : g.Sound fun _ => True where
  cached := hg.cached
  compiled _ _ _ := trivial
  states _ _ _ _ := trivial

/-- **A text is remembered as what it compiles to**, whatever scripts an engine was given. -/
theorem Reachable.sound {g : Engine} (h : Reachable g) : g.Sound fun _ => True := by
  induction h with
  | start hs => exact (Engine.sound_start hs).2.widen
  | operate op fuel _ k ih =>
    have alike := (op.answer_alike (S := fun _ => True) fuel fun _ _ => trivial).done
    rw [← Operation.run_eq] at alike
    exact (alike.keeps ih k).2
  | revert k _ ih => exact ih.revert k
  | retrieve k _ ih => exact ih.retrieve k
  | retrieved k _ hp ih => exact ih.retrieved hp

namespace Search

theorem passing_alike (fuel : Nat) : ∀ cs : List Choice, Alike S (fun _ => True) (passing fuel cs)
  | [] => .plain []
  | c :: cs => (Move.test_alike (runner_alike fuel) c).bind fun _ _ =>
      (passing_alike fuel cs).bind fun _ _ => .plain _

theorem apply_alike (fuel : Nat) (c : Choice) : Alike S (fun _ => True) (apply fuel c) :=
  Move.perform_alike (runner_alike fuel) _ _ _

/-- A successor is where performing the choice on a copy leads. -/
theorem successor_eq (fuel : Nat) (c : Choice) (g : Engine) : successor fuel c g =
    (apply fuel c g).map fun p => (p.1.map fun passed => if passed then some (c, p.2) else none, g) := by
  unfold successor onCopy
  cases h : apply fuel c g with
  | none =>
    show Option.map _ (Run.andThen _ _ g) = none
    unfold Run.andThen
    rw [h]
    rfl
  | some p =>
    obtain ⟨_ | passed, m⟩ := p
    · rw [Run.bind_apply_error h]
      rfl
    · rw [Run.bind_apply_ok h]
      rfl

/-- The choices and the states of successors. -/
def states (next : Except Fault (List (Choice × Engine))) : Except Fault (List (Choice × State)) :=
  next.map (·.map fun p => (p.1, p.2.state))

/-- What comes first is shown first. -/
theorem states_append (first : List (Choice × Engine)) (x : Run (List (Choice × Engine)))
    (g : Engine) : ((x >>= fun rest => pure (first ++ rest)) g).map (states ·.1) =
      (x g).map fun p => (states p.1).map (first.map (fun p => (p.1, p.2.state)) ++ ·) := by
  show (Run.andThen x _ g).map _ = _
  unfold Run.andThen
  rcases x g with _ | ⟨_ | rest, m⟩
  · rfl
  · rfl
  · simp [states, Except.map, Run.pure_apply]

/-- **Choices lead twins to the same states.** -/
theorem successors_twins {g : Engine} {c : Std.ExtTreeMap String Script} {H : History}
    (hg : g.Sound S) (hh : (g.withMemory c H).Sound S) (fuel : Nat) (cs : List Choice) :
    (successors fuel cs g).map (states ·.1) =
      (successors fuel cs (g.withMemory c H)).map (states ·.1) := by
  induction cs with
  | nil => rfl
  | cons choice cs ih =>
    have ends := apply_alike fuel choice g c H hg hh
    show (Run.andThen _ _ _).map _ = (Run.andThen _ _ _).map _
    unfold Run.andThen
    rw [successor_eq, successor_eq]
    generalize apply fuel choice g = one, apply fuel choice (g.withMemory c H) = other at ends ⊢
    cases ends with
    | outOfFuel => rfl
    | @ends r m c' H' _ _ _ =>
      rcases r with fault | passed
      · rfl
      · have rest := congrArg (Option.map fun r => r.map
          ((if passed then [(choice, m.state)] else []) ++ ·)) ih
        rw [Option.map_map, Option.map_map] at rest
        have shown := states_append (if passed then some (choice, m) else none).toList
          (successors fuel cs) g
        have shown' := states_append (if passed then some (choice, m.withMemory c' H') else none).toList
          (successors fuel cs) (g.withMemory c H)
        refine shown.trans (Eq.trans ?_ shown'.symm)
        cases passed <;> exact rest

/-- The same choices pass on twins. -/
theorem passingMoves_twins {g : Engine} {c : Std.ExtTreeMap String Script} {H : History}
    (hg : g.Sound S) (hh : (g.withMemory c H).Sound S) (fuel : Nat) (cs : List Choice) :
    (passingMoves fuel cs g).map (·.1) = (passingMoves fuel cs (g.withMemory c H)).map (·.1) := by
  have ends := passing_alike fuel cs g c H hg hh
  unfold passingMoves onCopy
  rw [Option.map_map, Option.map_map]
  generalize passing fuel cs g = one, passing fuel cs (g.withMemory c H) = other at ends ⊢
  cases ends <;> rfl

end Search

/-- Engines of one game in one state are twins. -/
theorem Engine.eq_withMemory {g h : Engine} (registry : h.registry = g.registry)
    (config : h.config = g.config) (schema : h.schema = g.schema) (state : h.state = g.state) :
    h = g.withMemory h.cache h.history := by
  cases h
  cases g
  simp_all [withMemory]

/-- **Scripts are genuine, and memory does not show.**  Every script that an engine
holds has the code that its text means, and a text is remembered under itself.  So
engines of one game whose states compare equal, by the texts of their scripts, are in
the same state; and whatever they have compiled and recorded, every operation has the
same result on both and leaves the same state, a search finds the same choices and
leads to the same states, and the same is looked up. -/
theorem Authored.memory_transparent {g : Engine} (hg : Authored r g) :
    (∀ s ∈ g.scripts, g.registry.meaning s.raw = .ok s.code) ∧
    (∀ (raw : String) (s : Script), g.cache[raw]? = some s → s.raw = raw) ∧
    ∀ h, Authored r h → h.config = g.config → (g.state == h.state) = true →
      (∀ (op : Operation) (fuel : Nat), (op.answer fuel g).map (fun p => (p.1, p.2.state)) =
        (op.answer fuel h).map fun p => (p.1, p.2.state)) ∧
      (∀ (fuel : Nat) (cs : List Choice),
        (Search.passingMoves fuel cs g).map (·.1) = (Search.passingMoves fuel cs h).map (·.1) ∧
        (Search.successors fuel cs g).map (Search.states ·.1) =
          (Search.successors fuel cs h).map (Search.states ·.1)) ∧
      (∀ name, g.entity name = h.entity name ∧
        ∀ category, g.stat name category = h.stat name category) ∧
      ∀ selector, g.select selector = h.select selector := by
  obtain ⟨registry, sound⟩ := hg.sound
  refine ⟨fun s hs => ?_, fun raw s hs => ?_, fun h hh config same => ?_⟩
  · rw [registry]
    exact (Written.held hg hs).genuine
  · exact (Registry.compile_eq_ok_iff.1 (sound.cached raw s hs)).1
  · obtain ⟨registry', sound'⟩ := hh.sound
    have schema : h.schema = g.schema := by
      have declared := hh.reachable.schema_eq
      rw [config, hg.reachable.schema_eq] at declared
      exact (Except.ok.inj declared).symm
    have state := State.eq_of_texts (legible_genuine r) same sound.state sound'.state
    have twin := Engine.eq_withMemory (registry'.trans registry.symm) config schema state.symm
    rw [twin] at sound' ⊢
    have any := sound.widen
    have any' := sound'.widen
    refine ⟨fun op fuel => ?_, fun fuel cs => ⟨?_, ?_⟩, fun name => ⟨?_, fun category => ?_⟩,
      fun selector => ?_⟩
    · exact (op.answer_alike fuel (fun _ _ => trivial) g _ _ any any').same
    · exact Search.passingMoves_twins any any' fuel cs
    · exact Search.successors_twins any any' fuel cs
    · rw [Engine.entity_withMemory]
    · rw [Engine.stat_withMemory]
    · rw [Engine.select_withMemory]

/-! ### An example -/

/-- What compiles can be compiled. -/
theorem Authored.compile {g : Engine} (hg : Authored r g) {raw : String} {s : Script}
    (hs : r.compile raw = .ok s) : Authored r { g with cache := g.cache.insert raw s } := by
  obtain ⟨rfl, sound⟩ := hg.sound
  refine .operate (x := .ok ()) (.compile raw) 0 hg (fun _ h => nomatch h) ?_
  show Run.andThen (Run.change (·.compile raw)) _ g = _
  unfold Run.andThen Run.change
  simp only [sound.compile_eq, hs]
  rfl

/-- A vocabulary of one word. -/
def denial : Registry := Registry.register { knowsFunctions := true } (Registry.ahead "not" "not")

/-- The script that denies something. -/
def denying (name : String) : Script := ⟨"not " ++ name, .call "not" [.name name] [] []⟩

/-- An orc that denies something when it is made as a move. -/
def denier : Entity.Definition := { name := "orc", effect := ["not x"] }

/-- An engine with the orc. -/
def camp : Engine :=
  { registry := denial
    config := { revertDepth := 1 }
    schema := (Schema.ofCatalog {}).toOption.getD {}
    state :=
      { entities := .ofList [("orc", Entity.ofDefinition denier [] [denying "x"])]
        dice := { seed := 0 } }
    history := .ofList []
    cache := .ofList [("not x", denying "x")] }

theorem authored_camp : Authored denial camp := by
  have start : Engine.start { revertDepth := 1 } denial = .ok { camp with
      state := .start 0
      cache := ∅ } := rfl
  exact .operate (.load denier) 0 (x := .ok ()) (.start start) (fun _ h => nomatch h) rfl

/-- The engine, rolled back after a step of the clock, with one more text compiled. -/
def campAgain : Engine :=
  { camp with
    cache := camp.cache.insert "not y" (denying "y")
    history := .ofList [camp.state] }

theorem authored_campAgain : Authored denial campAgain := by
  have meaning : denial.compile "not y" = .ok (denying "y") := rfl
  have passed : Authored denial
      { campAgain with state := { camp.state with delays := .empty, time := 1 } } := by
    refine .operate (.pass 1) 1 (x := .ok ()) (authored_camp.compile meaning)
      (fun _ h => nomatch h) ?_
    rfl
  exact .revert 1 passed

/-- The engine and itself after more play hold two scripts and four, but are in the same
state, and nothing tells them apart. -/
theorem Authored.memory_transparent_camp :
    Authored denial camp ∧ Authored denial campAgain ∧ (camp.state == campAgain.state) = true ∧
      camp.scripts.length = 2 ∧ campAgain.scripts.length = 4 ∧
      (∀ s ∈ campAgain.scripts, denial.meaning s.raw = .ok s.code) ∧
      ∀ (op : Operation) (fuel : Nat), (op.answer fuel camp).map (fun p => (p.1, p.2.state)) =
        (op.answer fuel campAgain).map fun p => (p.1, p.2.state) := by
  have same : (camp.state == campAgain.state) = true := rfl
  obtain ⟨genuine, _⟩ := Authored.memory_transparent authored_campAgain
  obtain ⟨_, _, alike⟩ := Authored.memory_transparent authored_camp
  have answers := (alike campAgain authored_campAgain rfl same).1
  exact ⟨authored_camp, authored_campAgain, same, rfl, rfl, genuine, answers⟩

end Tabletop
