/-
# Scripts that only ask

A query answers, and `assign` writes the storage of the running script.  A script
that calls nothing else, at any depth (`Expr.OnlyAsks`), leaves the engine as it
is, whether it comes to a value or fails, and it always ends
(`asking_changes_nothing`).  So does the trial of a choice whose requires are such
scripts: it can be used as a question.

The law is the one of `ScopedLaw.eval`, for computations that leave a given engine
(`Run.StillAt`).  Which functions a name may stand for is looked up in the registry
of that engine; there are none but the built-in ones, and those of the names in
question ask (`Builtin.asks_of_mem`).
-/

import Tabletop.Proofs.Scopes

namespace Tabletop

/-! ### Functions that ask -/

namespace Builtin

/-- The functions that do nothing beyond the running script. -/
def asks : Builtin → Bool
  | query _ | assign => true
  | change _ | control _ => false

/-- The names of the functions that do nothing beyond the running script. -/
def asking : List String :=
  ["add", "sub", "mul", "div", "rem", "eq", "ne", "lt", "le", "gt", "ge", "and", "or", "not",
   "max", "min", "if", "assign", "stored", "stat", "entity", "exists", "contains", "count",
   "time", "location", "at"]

/-- They are all the names of such functions. -/
theorem asking_eq : asking = (all.filter fun f => f.2.asks).map (·.1) := rfl

/-- What a name of theirs stands for is such a function. -/
theorem asks_of_mem {target : String} (h : target ∈ asking) {f : Builtin}
    (hf : ofName? target = some f) : f.asks := by
  have named : ∀ target ∈ asking, (ofName? target).all asks := by decide
  have here := named target h
  rwa [hf] at here

end Builtin

/-- All calls of the expression, at any depth, are for functions that ask. -/
def Expr.OnlyAsks (e : Expr) : Prop := ∀ target ∈ e.targets, target ∈ Builtin.asking

instance (e : Expr) : Decidable e.OnlyAsks :=
  inferInstanceAs (Decidable (∀ target ∈ e.targets, target ∈ Builtin.asking))

/-! ### Computations that leave an engine -/

variable {α β : Type} {g : Engine}

/-- A run that has an outcome in an engine and leaves the engine. -/
def Run.StillAt (g : Engine) (x : Run α) : Prop := ∃ r, x g = some (r, g)

theorem Run.StillAt.ask (f : Engine → Except Fault α) : StillAt g (Run.ask f) := ⟨f g, rfl⟩

/-- A run goes on from the engine it left. -/
theorem Run.StillAt.bind {x : Run α} {f : α → Run β} (hx : StillAt g x)
    (hf : ∀ a, x g = some (.ok a, g) → StillAt g (f a)) : StillAt g (x >>= f) := by
  obtain ⟨fault | a, kx⟩ := hx
  · exact ⟨.error fault, Run.bind_apply_error kx⟩
  · obtain ⟨r, kf⟩ := hf a kx
    exact ⟨r, (Run.bind_apply_ok kx).trans kf⟩

/-- A computation of a script that leaves an engine, in whatever scope. -/
def Still (g : Engine) (x : Scoped α) : Prop := ∀ s, Run.StillAt g (x s)

namespace Still

theorem law (g : Engine) : ScopedLaw fun {_} x => Still g x where
  ask f s := ⟨_, Scoped.ask_apply f s g⟩
  get s := ⟨.ok (s, s), rfl⟩
  bind hx hf s := .bind (hx s) fun p _ => hf p.1 p.2

variable {p : Powers}

/-- A function that asks leaves the engine. -/
theorem call {f : Builtin} (h : f.asks) (a : Arguments) : Still g (Interpreter.call p f a) := by
  have law := law g
  cases f with
  | query q => exact law.bind law.get fun _ => law.ask _
  | assign =>
    refine law.bind (law.ask _) fun name => law.bind (law.ask _) fun v => ?_
    exact law.bind (fun s => ⟨.ok ((), s.store name v), rfl⟩) fun _ => law.result _
  | change | control => cases h

/-- To call for a function that asks, known or not, leaves the engine. -/
theorem callNamed {target : String} (h : target ∈ Builtin.asking) (a : Arguments) :
    Still g (Interpreter.callNamed p target a) := by
  intro s
  refine .bind ⟨_, Scoped.ask_apply _ s g⟩ fun (f, s') k => ?_
  rw [Scoped.ask_apply, Interpreter.function, Registry.function?] at k
  by_cases known : g.registry.knowsFunctions
  · rw [if_pos known] at k
    cases hf : Builtin.ofName? target with
    | none => rw [hf] at k; cases k
    | some f' =>
      rw [hf] at k
      cases k
      exact call (Builtin.asks_of_mem h hf) a s
  · rw [if_neg known] at k
    cases k

/-- **A script that only asks leaves the engine.** -/
theorem eval {e : Expr} (h : e.OnlyAsks) : Still g (Interpreter.eval p e) :=
  (law g).eval e fun target ht a => callNamed (h target ht) a

end Still

/-- A check whose requires only ask leaves the engine. -/
theorem Move.check_stillAt {fuel : Nat} {scope : Scope} {name : String}
    (hn : scope.bindings.mover = some name)
    (h : ∀ ss, g.inheritedScripts name requireList = .ok ss → ∀ s ∈ ss, s.code.OnlyAsks) :
    Run.StillAt g (check (runner fuel) scope) := by
  refine .bind ⟨_, Move.mover_apply hn⟩ fun (found, s) k => ?_
  rw [mover_apply hn] at k
  cases k
  refine .bind ⟨_, Scoped.ask_apply _ scope g⟩ fun (ss, s) k => ?_
  rw [Scoped.ask_apply] at k
  cases hs : g.inheritedScripts name requireList with
  | error fault => rw [hs] at k; cases k
  | ok ss' =>
    rw [hs] at k
    cases k
    exact (Still.law g).requires (fun s hm => Still.eval (h ss hs s hm)) scope

/-- **Scripts that only ask change nothing.**  An expression all of whose calls, at any
depth, are for queries and `assign` has an outcome in every engine and scope, a value
or a fault, and leaves the engine as it is: its state with all that is scheduled, its
history, and the texts compiled so far.  Hence so does a trial of a choice if the
requires that its move inherits are of this kind. -/
theorem asking_changes_nothing :
    (∀ (p : Powers) (e : Expr) (scope : Scope) (g : Engine), e.OnlyAsks →
      ∃ r, Interpreter.eval p e scope g = some (r, g)) ∧
    ∀ (fuel : Nat) (c : Choice) (g : Engine),
      (∀ ss, g.inheritedScripts c.mover requireList = .ok ss → ∀ s ∈ ss, s.code.OnlyAsks) →
        ∃ r, Game.test fuel c g = some (r, g) := by
  refine ⟨fun p e scope g h => Still.eval h scope, fun fuel c g h => ?_⟩
  have check : Run.StillAt g (Move.check (runner fuel) { bindings := .ofChoice c }) :=
    Move.check_stillAt rfl h
  show Run.StillAt g (Game.test fuel c)
  exact .bind (.ask _) fun _ _ => .bind (.ask _) fun _ _ => .bind (.ask _) fun _ _ =>
    .bind check fun verdict _ => .ask fun _ => .ok verdict.1

/-- A move that stores the time and divides by it. -/
def reckoner : Entity :=
  (Entity.named "reckon").append requireList
    [.script ⟨"let now (time)",
        .call "assign" [.literal (.str "now"), .call "time" [] [] []] [] []⟩,
      .script ⟨"4 / (var now)",
        .call "div" [.literal (.int 4), .call "stored" [.literal (.str "now")] [] []] [] []⟩]

/-- At the start of a game the trial of the move fails, as it divides by zero, and leaves
the engine as it is. -/
theorem asking_changes_nothing_reckoner : ∃ g : Engine, Reachable g ∧
    (∀ ss, g.inheritedScripts "reckon" requireList = .ok ss → ∀ s ∈ ss, s.code.OnlyAsks) ∧
    Game.test 0 ⟨"reckon", "reckon", "reckon"⟩ g =
      some (.error (.arithmetic .divisionByZero), g) := by
  obtain ⟨start, hs⟩ : ∃ start, Engine.start {} { knowsFunctions := true } = .ok start := ⟨_, rfl⟩
  obtain ⟨g, hg⟩ : ∃ g, Mutation.insert reckoner start = some (.ok (), g) := by
    cases hs
    exact ⟨_, rfl⟩
  have reachable : Reachable g := (Reachable.start hs).insert hg
  have gate : ∀ ss, g.inheritedScripts "reckon" requireList = .ok ss →
      ∀ s ∈ ss, s.code.OnlyAsks := by
    intro ss h
    cases hs
    cases hg
    cases h
    decide
  obtain ⟨r, k⟩ := asking_changes_nothing.2 0 ⟨"reckon", "reckon", "reckon"⟩ g gate
  refine ⟨g, reachable, gate, k.trans ?_⟩
  cases hs
  cases hg
  cases k
  rfl

end Tabletop
