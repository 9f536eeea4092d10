/-
# Negative integers: bare, in brackets and alone

A negative integer is written as a sign up against digits, which is also the compact form of
a subtraction.  Bare beside an operator it is a word among others, and means the integer
(`meaning_bare`).  A word that stands alone, in brackets or as the whole script, is split
instead: the digits are taken from nothing (`group_negative`).  That gives the same integer
but for the least one, whose digits are beyond the greatest and so no integer
(`computes_negated`).  Evaluated on an engine, each of the three ways gives what it computes
(`Game.evaluate_of_computes`), so they agree on every negative integer but the least
(`Game.evaluate_negative`).
-/

import Tabletop.Proofs.Arithmetic
import Tabletop.Proofs.Compact

namespace Tabletop

open Compile

/-! ### Digits -/

namespace Integer

theorem write_natCast (m : Nat) : write m = digits m := rfl

/-- A negative integer is written as a sign up against digits. -/
theorem write_of_neg {n : Int} (h : n < 0) : write n = attached '-' (digits n.natAbs) := by
  cases n with
  | ofNat m => exact absurd h (Int.not_lt.2 (Int.natCast_nonneg m))
  | negSucc m => simp [write, attached]

/-- The size of an integer in range is in range, unless it is the least. -/
theorem inRange_natAbs {n : Int} (range : InRange n) (above : n ≠ least) : InRange n.natAbs := by
  unfold InRange least greatest at *
  omega

end Integer

theorem means_digits (m : Nat) :
    Word.Means (Integer.digits m).toList (.word (Integer.digits m)) := by
  have dot : '.' ∉ (Integer.digits m).toList := fun h => nomatch Integer.isDigit_of_mem_digits h
  have plain := Word.Means.plain (w := (Integer.digits m).toList) (by simp [Word.isChain, dot])
  rwa [String.ofList_toList] at plain

/-- Digits are none of the usual keywords. -/
theorem not_isKeyword_digits (m : Nat) :
    Registry.standard.isKeyword (Integer.digits m) = false := by
  have other : ∀ w ∈ Registry.standardKeywords.map (·.name), w.toList.all Char.isDigit = false := by
    decide
  have digits : (Integer.digits m).toList.all Char.isDigit = true :=
    List.all_eq_true.2 fun _ hc => Integer.isDigit_of_mem_digits hc
  rw [← Bool.not_eq_true, Registry.isKeyword_standard]
  intro usual
  rw [other _ usual] at digits
  cases digits

/-- A negative integer is the keyword of subtraction up against its operand. -/
theorem compact_negative {n : Int} (range : Integer.InRange n) (negative : n < 0) :
    Compact .standard '-' (Integer.digits n.natAbs) where
  bare := ⟨rfl, by decide⟩
  keyword := by rfl
  ne := by simp [Integer.digits, ← String.toList_inj, Nat.toDigits_ne_nil]
  letters c hc := Reader.endsWord_of_isDigit (Integer.isDigit_of_mem_digits hc)
  operand := ⟨_, means_digits _⟩
  fresh := by
    rw [← Integer.write_of_neg negative]
    exact Registry.not_isKeyword_of_number (Integer.read?_write range)

/-! ### Meaning -/

/-- Digits taken from nothing. -/
def negated (m : Nat) : Expr :=
  .call "sub" [.literal (.int 0), .ofWord (Integer.digits m)] [] []

section Meaning

variable {n : Int} (range : Integer.InRange n) (negative : n < 0)

include range negative

/-- **A negative integer that stands alone is its digits taken from nothing.** -/
theorem group_negative (root : Bool) :
    group .standard (splitWord .standard) [.word (Integer.write n)] root =
      .ok (negated n.natAbs) := by
  have h := compact_negative range negative
  rw [Integer.write_of_neg negative, group_attached h (means_digits _)]
  have one : OneKeyword .standard [.word "-", .word (Integer.digits n.natAbs)] 0 "-"
      Operator.sub.keyword := {
    word := rfl
    keyword := Operator.keyword?_word .sub
    only := by
      intro i u hi hu
      match i with
      | 0 => rfl
      | 1 =>
        cases hi
        rw [not_isKeyword_digits] at hu
        cases hu
      | i + 2 => cases hi }
  rw [one.group_eq_call (splitWord_of_isKeyword one.isKeyword root)]
  rfl

theorem meaning_alone : Registry.standard.meaning (Integer.write n) = .ok (negated n.natAbs) := by
  rw [Registry.meaning, Token.read, (Reader.reads_write n).tokens?_eq (List.cons_ne_nil _ _)]
  exact group_negative range negative true

end Meaning

/-- What is added to nothing is an operand, if it is no keyword. -/
theorem meaning_sum {text : String} {t : Token} {e : Expr} (reads : Reader.Reads text.toList [t])
    (keyless : ∀ w, t = .word w → Registry.standard.isKeyword w = false)
    (means : Compile.token .standard (splitWord .standard) t = .ok e) :
    Registry.standard.meaning ("0 + " ++ text) =
      .ok (.call "add" [.literal (.int 0), e] [] []) := by
  have row := Formula.reads_between .add (Reader.reads_write 0) reads
  have whole : ("0 + " ++ text).toList =
      ((Integer.write 0).toList ++ ' ' :: Operator.add.word.toList) ++ ' ' :: text.toList := by
    rw [String.toList_append]
    rfl
  rw [Registry.meaning, Token.read, whole, row.tokens?_eq (List.cons_ne_nil _ _)]
  refine Formula.group_between .add ?_ keyless true rfl means
  rintro w ⟨⟩
  rfl

theorem meaning_bare {n : Int} (range : Integer.InRange n) :
    Registry.standard.meaning ("0 + " ++ Integer.write n) =
      .ok (.call "add" [.literal (.int 0), .literal (.int n)] [] []) := by
  refine meaning_sum (Reader.reads_write n) ?_ (congrArg _ (Formula.ofWord_write range))
  rintro w ⟨⟩
  exact Registry.not_isKeyword_of_number (Integer.read?_write range)

theorem meaning_bracketed {n : Int} (range : Integer.InRange n) (negative : n < 0) :
    Registry.standard.meaning ("0 + (" ++ Integer.write n ++ ")") =
      .ok (.call "add" [.literal (.int 0), negated n.natAbs] [] []) := by
  have bracket := (Reader.reads_write n).inBracket .round fun _ => List.cons_ne_nil _ _
  have text : ("(" ++ Integer.write n ++ ")").toList =
      Bracket.round.opening :: (Integer.write n).toList ++ [Bracket.round.closing] := by
    rw [String.toList_append, String.toList_append]
    rfl
  rw [← text] at bracket
  have sum := meaning_sum bracket nofun (group_negative range negative false)
  rwa [← String.append_assoc, ← String.append_assoc] at sum

/-! ### Evaluation -/

/-- A code gives a result on each engine with the usual vocabulary, and changes nothing. -/
def Computes (code : Expr) (r : Except Fault Int) : Prop :=
  ∀ (p : Powers) (scope : Scope) (g : Engine), g.registry = .standard →
    Interpreter.eval p code scope g = some (r.map fun n => (.int n, scope), g)

theorem computes_literal (n : Int) : Computes (.literal (.int n)) (.ok n) := fun _ _ _ _ => rfl

theorem Computes.op (op : Operator) {x y : Expr} {a b : Int} (hx : Computes x (.ok a))
    (hy : Computes y (.ok b)) :
    Computes (.call op.target [x, y] [] []) ((op.apply a b).mapError Fault.arithmetic) := by
  intro p scope g hr
  have known : g.registry.function? op.target = some (.query op.query) := by
    rw [hr, op.function?_target]
  rw [Interpreter.eval_call_query (hx p scope g hr) (hy p scope g hr) known, op.answer_eq rfl rfl]
  cases op.apply a b <;> rfl

/-- What is added to nothing is what it was. -/
theorem Computes.sum {e : Expr} {r : Except Fault Int} (h : Computes e r)
    (range : ∀ n, r = .ok n → Integer.InRange n) :
    Computes (.call "add" [.literal (.int 0), e] [] []) r := by
  cases r with
  | ok n =>
    have sum := (computes_literal 0).op .add h
    rw [Operator.apply, Int.zero_add, Operator.fit, if_pos (range n rfl)] at sum
    exact sum
  | error fault =>
    intro p scope g hr
    exact Interpreter.eval_call_error_right (computes_literal 0 p scope g hr) (h p scope g hr)

/-- What a negative integer comes to if its digits are taken from nothing.  Those of the
least are beyond the greatest, so they are a name, and nothing can be taken of that. -/
def Integer.detached (n : Int) : Except Fault Int :=
  if n = least then .error (.mistyped .integer (.ref "9223372036854775808")) else .ok n

theorem Integer.inRange_of_detached {n m : Int} (range : InRange n) (h : detached n = .ok m) :
    InRange m := by
  rw [detached] at h
  split at h <;> cases h
  exact range

/-- **Digits taken from nothing** give the negative integer, unless that is the least. -/
theorem computes_negated {n : Int} (range : Integer.InRange n) (negative : n < 0) :
    Computes (negated n.natAbs) (Integer.detached n) := by
  rw [Integer.detached]
  split
  · next least =>
    subst least
    have word : Expr.ofWord (Integer.digits Integer.least.natAbs) =
        .name "9223372036854775808" := by rfl
    intro p scope g hr
    have known : g.registry.function? Operator.sub.target = some (.query .sub) := by
      rw [hr, Operator.function?_target]
      rfl
    have name : Interpreter.eval p (.name "9223372036854775808") scope g =
        some (.ok (.ref "9223372036854775808", scope), g) := rfl
    rw [negated, word]
    exact Interpreter.eval_call_query (computes_literal 0 p scope g hr) name known
  · next above =>
    have word : Expr.ofWord (Integer.digits n.natAbs) = .literal (.int n.natAbs) := by
      rw [← Integer.write_natCast]
      exact Formula.ofWord_write (Integer.inRange_natAbs range above)
    have back : (0 : Int) - n.natAbs = n := by
      rw [Int.ofNat_natAbs_of_nonpos (Int.le_of_lt negative), Int.zero_sub, Int.neg_neg]
    have difference := (computes_literal 0).op .sub (computes_literal n.natAbs)
    rw [Operator.apply, back, Operator.fit, if_pos range] at difference
    rw [negated, word]
    exact difference

/-- A script whose code gives a result evaluates to it. -/
theorem Game.evaluate_of_computes {g : Engine} (reachable : Reachable g)
    (hr : g.registry = .standard) {text : String} {code : Expr} {r : Except Fault Int}
    (means : Registry.standard.meaning text = .ok code) (computes : Computes code r) (fuel : Nat)
    (bindings : Bindings) : ∃ cache, Game.evaluate fuel text bindings g =
      some (r.map Value.int, g.withMemory cache g.history) := by
  have hs : g.registry.compile text = .ok ⟨text, code⟩ := by
    rw [hr, Registry.compile, means]
    rfl
  refine ⟨g.cache.insert text ⟨text, code⟩, ?_⟩
  rw [Game.evaluate_of_compile reachable.sound hs]
  have usual : (g.withMemory (g.cache.insert text ⟨text, code⟩) g.history).registry =
      .standard := hr
  generalize g.withMemory (g.cache.insert text ⟨text, code⟩) g.history = h at usual ⊢
  have evaluated := computes (powers fuel) { bindings } h usual
  cases r with
  | ok n =>
    have ran : (runner fuel ⟨text, code⟩).within { bindings } h = some (.ok (.int n), h) :=
      Run.bind_apply_ok evaluated
    rw [Run.bind_apply_ok ran]
    rfl
  | error fault => exact Run.bind_apply_error (Run.bind_apply_error evaluated)

namespace Game

variable {g : Engine} {n : Int}

section

variable (reachable : Reachable g) (hr : g.registry = .standard) (range : Integer.InRange n)

include reachable hr range

theorem evaluate_bare (fuel : Nat) (bindings : Bindings) :
    ∃ cache, Game.evaluate fuel ("0 + " ++ Integer.write n) bindings g =
      some (.ok (.int n), g.withMemory cache g.history) :=
  evaluate_of_computes reachable hr (meaning_bare range)
    ((computes_literal n).sum fun _ hm => Except.ok.inj hm ▸ range) fuel bindings

variable (negative : n < 0)

include negative

theorem evaluate_detached (fuel : Nat) (bindings : Bindings) :
    ∀ text ∈ ["0 + (" ++ Integer.write n ++ ")", Integer.write n],
      ∃ cache, Game.evaluate fuel text bindings g =
        some ((Integer.detached n).map Value.int, g.withMemory cache g.history) := by
  have alone := computes_negated range negative
  have bracketed := alone.sum fun _ => Integer.inRange_of_detached range
  rw [List.forall_mem_cons, List.forall_mem_singleton]
  exact ⟨
    evaluate_of_computes reachable hr (meaning_bracketed range negative) bracketed fuel bindings,
    evaluate_of_computes reachable hr (meaning_alone range negative) alone fuel bindings⟩

end

/-- **A negative integer is itself unless its digits are taken from nothing and it is the
least.**  On every engine with the usual vocabulary, and with any bindings, a negative integer
in range that stands bare behind an operator is itself.  In brackets there, and alone, it is
itself if it is not the least integer, and otherwise the script fails, as its digits are no
integer then.  Nothing changes but the texts compiled so far. -/
theorem evaluate_negative (reachable : Reachable g) (hr : g.registry = .standard)
    (range : Integer.InRange n) (negative : n < 0) (fuel : Nat) (bindings : Bindings) :
    (∃ cache, Game.evaluate fuel ("0 + " ++ Integer.write n) bindings g =
      some (.ok (.int n), g.withMemory cache g.history)) ∧
    ∀ text ∈ ["0 + (" ++ Integer.write n ++ ")", Integer.write n],
      ∃ cache, Game.evaluate fuel text bindings g =
        some ((Integer.detached n).map Value.int, g.withMemory cache g.history) :=
  ⟨evaluate_bare reachable hr range fuel bindings,
    evaluate_detached reachable hr range negative fuel bindings⟩

/-- On an engine with one entity, -5 is itself in each of the three ways. -/
theorem evaluate_negative_five :
    (∃ cache, Game.evaluate 0 "0 + -5" {} Formula.yard =
      some (.ok (.int (-5)), Formula.yard.withMemory cache Formula.yard.history)) ∧
    (∃ cache, Game.evaluate 0 "0 + (-5)" {} Formula.yard =
      some (.ok (.int (-5)), Formula.yard.withMemory cache Formula.yard.history)) ∧
    ∃ cache, Game.evaluate 0 "-5" {} Formula.yard =
      some (.ok (.int (-5)), Formula.yard.withMemory cache Formula.yard.history) := by
  have range : Integer.InRange (-5) := by decide
  obtain ⟨bare, detached⟩ := evaluate_negative Formula.reachable_yard rfl range (by decide) 0 {}
  rw [List.forall_mem_cons, List.forall_mem_singleton] at detached
  exact ⟨bare, detached⟩

/-- The least integer is itself bare behind an operator only. -/
theorem evaluate_least :
    Reachable Formula.yard ∧ Formula.yard.registry = .standard ∧
    (∃ cache, Game.evaluate 0 "0 + -9223372036854775808" {} Formula.yard =
      some (.ok (.int Integer.least), Formula.yard.withMemory cache Formula.yard.history)) ∧
    (∃ cache, Game.evaluate 0 "0 + (-9223372036854775808)" {} Formula.yard =
      some (.error (.mistyped .integer (.ref "9223372036854775808")),
        Formula.yard.withMemory cache Formula.yard.history)) ∧
    ∃ cache, Game.evaluate 0 "-9223372036854775808" {} Formula.yard =
      some (.error (.mistyped .integer (.ref "9223372036854775808")),
        Formula.yard.withMemory cache Formula.yard.history) := by
  have range : Integer.InRange Integer.least := by decide
  have detached := evaluate_detached Formula.reachable_yard rfl range (by decide) 0 {}
  rw [List.forall_mem_cons, List.forall_mem_singleton] at detached
  exact ⟨Formula.reachable_yard, rfl, evaluate_bare Formula.reachable_yard rfl range 0 {}, detached⟩

end Game
end Tabletop
