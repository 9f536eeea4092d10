/-
# Evaluation: how a script ends, part by part

A call evaluates its arguments from left to right and then does what its function does,
so how it ends follows from how its arguments end, without running anything
(`Interpreter.eval_call` and the two ways to fail before).  A text that compiles is
remembered, and to evaluate it is to run its script (`Game.evaluate_of_compile`).
-/

import Tabletop.Proofs.Genuine

namespace Tabletop

/-- A computation that went on from its first part. -/
theorem Scoped.bind_apply_ok {α β : Type} {x : Scoped α} {f : α → Scoped β} {s s' : Scope}
    {g h : Engine} {a : α} (e : x s g = some (.ok (a, s'), h)) : (x >>= f) s g = f a s' h :=
  Run.bind_apply_ok e

/-- A computation that failed at its first part. -/
theorem Scoped.bind_apply_error {α β : Type} {x : Scoped α} {f : α → Scoped β} {s : Scope}
    {g h : Engine} {fault : Fault} (e : x s g = some (.error fault, h)) :
    (x >>= f) s g = some (.error fault, h) :=
  Run.bind_apply_error e

/-- A lookup leaves the engine and the scope. -/
theorem Scoped.ask_apply {α : Type} (f : Engine → Except Fault α) (s : Scope) (g : Engine) :
    (liftM (Run.ask f) : Scoped α) s g = some ((f g).map (·, s), g) := by
  show Run.andThen (Run.ask f) _ g = _
  rw [Run.andThen, Run.ask]
  cases f g <;> rfl

/-- A text that is compiled is remembered. -/
theorem Game.compile_of_compile {S : Script → Prop} {g : Engine} (sound : g.Sound S) {raw : String}
    {s : Script} (hs : g.registry.compile raw = .ok s) :
    Game.compile raw g = some (.ok s, g.withMemory (g.cache.insert raw s) g.history) := by
  rw [Game.compile, Run.change, sound.compile_eq, hs]
  rfl

/-- To evaluate a text is to run its script, with the text remembered. -/
theorem Game.evaluate_of_compile {S : Script → Prop} {g : Engine} (sound : g.Sound S)
    {raw : String} {s : Script} (hs : g.registry.compile raw = .ok s) (fuel : Nat)
    (bindings : Bindings) : Game.evaluate fuel raw bindings g =
      (do
        let v ← (runner fuel s).within { bindings }
        Run.ask (·.resolve v)) (g.withMemory (g.cache.insert raw s) g.history) :=
  Run.bind_apply_ok (compile_of_compile sound hs)

namespace Interpreter

variable {p : Powers} {x y : Expr} {scope scope' : Scope} {g h : Engine} {target : String}

/-- A call fails at its first argument. -/
theorem eval_call_error_left {fault : Fault} (hx : eval p x scope g = some (.error fault, h)) :
    eval p (.call target [x, y] [] []) scope g = some (.error fault, h) := by
  rw [eval, Scoped.bind_apply_error]
  rw [evalAll, Scoped.bind_apply_error hx]

/-- A call fails at its second argument. -/
theorem eval_call_error_right {v : Value} {fault : Fault}
    (hx : eval p x scope g = some (.ok (v, scope), g))
    (hy : eval p y scope g = some (.error fault, h)) :
    eval p (.call target [x, y] [] []) scope g = some (.error fault, h) := by
  rw [eval, Scoped.bind_apply_error]
  rw [evalAll, Scoped.bind_apply_ok hx, Scoped.bind_apply_error]
  rw [evalAll, Scoped.bind_apply_error hy]

/-- A call with two arguments does what its function does with them. -/
theorem eval_call {v w : Value} {f : Builtin} (hx : eval p x scope g = some (.ok (v, scope), g))
    (hy : eval p y scope g = some (.ok (w, scope), g))
    (hf : g.registry.function? target = some f) :
    eval p (.call target [x, y] [] []) scope g = call p f { positional := [v, w] } scope g := by
  have second : evalAll p [y] scope g = some (.ok ([w], scope), g) := by
    rw [evalAll, Scoped.bind_apply_ok hy]
    rfl
  have args : evalAll p [x, y] scope g = some (.ok ([v, w], scope), g) := by
    rw [evalAll, Scoped.bind_apply_ok hx, Scoped.bind_apply_ok second]
    rfl
  have leftover : evalAll p [] scope g = some (.ok ([], scope), g) := rfl
  have named : evalNamed p [] scope g = some (.ok ([], scope), g) := rfl
  have known : (Run.ask (function target) : Scoped Builtin) scope g =
      some (.ok (f, scope), g) := by
    rw [Scoped.ask_apply, function, hf]
    rfl
  rw [eval, Scoped.bind_apply_ok args, Scoped.bind_apply_ok leftover, Scoped.bind_apply_ok named,
    Scoped.bind_apply_ok known]

/-- A query is answered, and nothing else happens. -/
theorem call_query (q : Query) (a : Arguments) :
    call p (.query q) a scope g = some ((q.answer g scope a).map (·, scope), g) :=
  Scoped.ask_apply (fun g => q.answer g scope a) scope g

/-- A query of two arguments is answered. -/
theorem eval_call_query {v w : Value} {q : Query}
    (hx : eval p x scope g = some (.ok (v, scope), g))
    (hy : eval p y scope g = some (.ok (w, scope), g))
    (hf : g.registry.function? target = some (.query q)) :
    eval p (.call target [x, y] [] []) scope g =
      some ((q.answer g scope { positional := [v, w] }).map (·, scope), g) := by
  rw [eval_call hx hy hf, call_query]

end Interpreter

end Tabletop
