/-
# Arithmetic: written formulas compute what they say

A formula is a tree of operators over integers and paths to stats.  Written down, each
operand that is an operation stands in one pair of brackets (`Formula.text`).  The text
reads as the row of its operands around the operator (`Formula.reads_operand`), and that
row means the call of the operator's function (`Formula.token_operand`).  Evaluated on an
engine, it gives the value of the tree in exact integers of 64 bits, or the first fault on
the way from left to right and from the inside out, and changes nothing but the texts that
were compiled (`Formula.evaluate_exact`).
-/

import Tabletop.Proofs.Binding
import Tabletop.Proofs.Evaluation
import Tabletop.Proofs.Reading

namespace Tabletop

/-! ### Operators -/

/-- An operator of arithmetic. -/
inductive Operator
  | add | sub | mul | div | rem
deriving DecidableEq, Repr

namespace Operator

/-- The word of an operator. -/
def word : Operator → String
  | add => "+"
  | sub => "-"
  | mul => "*"
  | div => "/"
  | rem => "%"

/-- The function an operator is for. -/
def query : Operator → Query
  | add => .add
  | sub => .sub
  | mul => .mul
  | div => .div
  | rem => .rem

/-- The name of the function. -/
def target : Operator → String
  | add => "add"
  | sub => "sub"
  | mul => "mul"
  | div => "div"
  | rem => "rem"

/-- An integer that fits into 64 bits. -/
def fit (n : Int) : Except ArithmeticFault Int :=
  if Integer.InRange n then .ok n else .error .overflow

/-- What an operator gives: the exact result, the quotient rounded toward zero and the
remainder with the sign of the dividend, if it fits.  A remainder overflows when its
quotient does. -/
def apply : Operator → Int → Int → Except ArithmeticFault Int
  | add, x, y => fit (x + y)
  | sub, x, y => fit (x - y)
  | mul, x, y => fit (x * y)
  | div, x, y => if y = 0 then .error .divisionByZero else fit (x.tdiv y)
  | rem, x, y =>
    if y = 0 then .error .divisionByZero
    else if Integer.InRange (x.tdiv y) then .ok (x.tmod y)
    else .error .overflow

/-- **The function of an operator computes what the operator gives.** -/
theorem answer_eq (op : Operator) {g : Engine} {scope : Scope} {a : Arguments} {x y : Int}
    (hx : g.integer (a.get 0) = .ok x) (hy : g.integer (a.get 1) = .ok y) :
    op.query.answer g scope a = ((op.apply x y).map Value.int).mapError Fault.arithmetic := by
  have both : Query.integers g a = .ok (x, y) := by
    rw [Query.integers, hx, hy]
    rfl
  have fits (n : Int) : Query.inRange n = (fit n).mapError Fault.arithmetic := by
    rw [Query.inRange, Integer.checked, fit]
    split <;> split <;> simp_all [Except.mapError]
  have through (r : Except ArithmeticFault Int) (f : Int → Int → Except Fault Int)
      (hf : f x y = r.mapError Fault.arithmetic) :
      Query.arithmetic g a f = (r.map Value.int).mapError Fault.arithmetic := by
    rw [Query.arithmetic, both]
    show (f x y >>= fun n => pure (Value.int n)) = _
    rw [hf]
    cases r <;> rfl
  have quotient : Query.quotient x y = (div.apply x y).mapError Fault.arithmetic := by
    rw [Query.quotient, fits, apply]
    split <;> rfl
  cases op with
  | add => exact through _ (fun x y => Query.inRange (x + y)) (fits _)
  | sub => exact through _ (fun x y => Query.inRange (x - y)) (fits _)
  | mul => exact through _ (fun x y => Query.inRange (x * y)) (fits _)
  | div => exact through _ _ quotient
  | rem =>
    refine through _ _ ?_
    rw [Query.remainder, quotient, apply, apply, fit]
    split
    · rfl
    · split <;> rfl

/-- **Of two integers in range, only the least divided by -1 has a quotient beyond.** -/
theorem div_eq_overflow_iff {x y : Int} (hx : Integer.InRange x) (hy : y ≠ 0) :
    div.apply x y = .error .overflow ↔ x = Integer.least ∧ y = -1 := by
  have size : (x.tdiv y).natAbs = x.natAbs / y.natAbs := Int.natAbs_tdiv x y
  have fits : Integer.InRange (x.tdiv y) ↔ ¬(x = Integer.least ∧ y = -1) := by
    unfold Integer.InRange Integer.least Integer.greatest at *
    rcases Nat.lt_or_ge y.natAbs 2 with small | large
    · have unit : y = 1 ∨ y = -1 := by omega
      rcases unit with rfl | rfl
      · rw [Int.tdiv_one]
        omega
      · rw [Int.tdiv_neg, Int.tdiv_one]
        omega
    · have half : x.natAbs / y.natAbs ≤ x.natAbs / 2 := Nat.div_le_div_left large (by decide)
      omega
  rw [apply, if_neg hy, fit, ← not_iff_not, ← fits]
  split <;> simp_all

/-- A remainder overflows with its quotient. -/
theorem rem_eq_overflow_iff {x y : Int} (hx : Integer.InRange x) (hy : y ≠ 0) :
    rem.apply x y = .error .overflow ↔ x = Integer.least ∧ y = -1 := by
  rw [← div_eq_overflow_iff hx hy, apply, apply, if_neg hy, if_neg hy, fit]
  split <;> simp

example : (div.apply (-7) 2, rem.apply (-7) 2) = (.ok (-3), .ok (-1)) := by decide

example : (div.apply Integer.least (-1), rem.apply Integer.least (-1)) =
    (.error .overflow, .error .overflow) := by decide

/-- The keyword of an operator. -/
def keyword : Operator → Keyword
  | sub => (Registry.between "-" "sub").withDefault (.before 1) (.int 0)
  | op => Registry.between op.word op.target

theorem keyword?_word (op : Operator) :
    Registry.standard.keyword? op.word = some op.keyword := by
  cases op <;> rfl

theorem function?_target (op : Operator) :
    Registry.standard.function? op.target = some (.query op.query) := by
  cases op <;> rfl

end Operator

/-! ### Formulas -/

/-- A formula: integers and paths to stats, put together by operators. -/
inductive Formula
  | literal (n : Int)
  | path (name stat : String)
  | node (op : Operator) (left right : Formula)

/-- A plain identifier: a word without dots that does not start like a number, and is no
number, no keyword and no reserved word. -/
structure Plain (w : String) : Prop where
  ne : w ≠ ""
  letters : ∀ c ∈ w.toList, endsWord c = false ∧ c ≠ '.'
  head : ∀ c ∈ w.toList.head?, c.isDigit = false ∧ c ≠ '-'
  number : Integer.read? w.toList = none
  keyword : Registry.standard.isKeyword w = false
  reserved : w ∉ ["true", "false", "none", "caster", "c", "target", "t", "move", "m"]

namespace Formula

/-- A formula as an operand: an operation in brackets, anything else bare. -/
def operand : Formula → String
  | literal n => Integer.write n
  | path name stat => name ++ "." ++ stat
  | node op left right => "(" ++ left.operand ++ " " ++ op.word ++ " " ++ right.operand ++ ")"

/-- A formula as a script. -/
def text : Formula → String
  | node op left right => left.operand ++ " " ++ op.word ++ " " ++ right.operand
  | leaf => leaf.operand

/-- The value of a formula, given those of the paths: the left operand comes first, then
the right one, then the operator. -/
def value (total : String → String → Int) : Formula → Except ArithmeticFault Int
  | literal n => .ok n
  | path name stat => .ok (total name stat)
  | node op left right => do
    let x ← left.value total
    let y ← right.value total
    op.apply x y

/-- The integers of a formula are in range, and each of its paths names an entity and a
stat with a total on it. -/
def Valid (g : Engine) (total : String → String → Int) : Formula → Prop
  | literal n => Integer.InRange n
  | path name stat => Plain name ∧ Plain stat ∧ g.contains name = true ∧
      g.schema.isStat stat = true ∧ g.statTotal name stat = .ok (total name stat)
  | node _ left right => left.Valid g total ∧ right.Valid g total

/-- What a formula means. -/
def code : Formula → Expr
  | literal n => .literal (.int n)
  | path name stat => .tuple [.name name, .name stat]
  | node op left right => .call op.target [left.code, right.code] [] []

/-- The token an operand reads as. -/
def token : Formula → Token
  | literal n => .word (Integer.write n)
  | path name stat => .group [.word name, .word stat] (name ++ "." ++ stat)
  | node op left right => .group [left.token, .word op.word, right.token]
      (String.ofList (trimRead (node op left right).text.toList.reverse))

variable {g : Engine} {total : String → String → Int}

/-! ### Reading -/

/-- Two texts with an operator between them read as a row. -/
theorem reads_between (op : Operator) {a b : List Char} {t u : Token} (ha : Reader.Reads a [t])
    (hb : Reader.Reads b [u]) :
    Reader.Reads ((a ++ ' ' :: op.word.toList) ++ ' ' :: b) [t, .word op.word, u] := by
  have sign : Reader.Reads op.word.toList [.word op.word] := by
    cases op <;>
      exact Reader.reads_plain (by decide) (List.forall_mem_singleton.2 ⟨rfl, by decide⟩)
  exact (ha.append sign rfl).append hb rfl

theorem reads_row (op : Operator) {left right : Formula}
    (hl : Reader.Reads left.operand.toList [left.token])
    (hr : Reader.Reads right.operand.toList [right.token]) :
    Reader.Reads (node op left right).text.toList [left.token, .word op.word, right.token] := by
  have whole : (node op left right).text.toList =
      (left.operand.toList ++ ' ' :: op.word.toList) ++ ' ' :: right.operand.toList := by
    simp [text]
  rw [whole]
  exact reads_between op hl hr

/-- **An operand reads as its token.** -/
theorem reads_operand {f : Formula} (valid : f.Valid g total) :
    Reader.Reads f.operand.toList [f.token] := by
  induction f with
  | literal n => exact Reader.reads_write n
  | path name stat =>
    obtain ⟨hn, hs, -⟩ := valid
    exact Reader.reads_pair hn.ne hs.ne hn.letters hs.letters hn.head
  | node op left right ihl ihr =>
    have row := reads_row op (ihl valid.1) (ihr valid.2)
    have whole : (node op left right).operand.toList =
        Bracket.round.opening :: (node op left right).text.toList ++ [Bracket.round.closing] := by
      simp [text, operand, Bracket.opening, Bracket.closing]
    rw [whole]
    exact row.inBracket .round fun _ => List.cons_ne_nil _ _

/-! ### Meaning -/

theorem ofWord_write {n : Int} (h : Integer.InRange n) :
    Expr.ofWord (Integer.write n) = .literal (.int n) := by
  rw [Expr.ofWord, Integer.read?_write h]

end Formula

theorem Plain.ofWord {w : String} (h : Plain w) : Expr.ofWord w = .name w := by
  have reserved := h.reserved
  simp only [List.mem_cons, List.not_mem_nil, or_false, not_or] at reserved
  simp [Expr.ofWord, h.number, reserved, Role.ofWord?]

theorem Plain.keyword?_eq_none {w : String} (h : Plain w) :
    Registry.standard.keyword? w = none := by
  rw [← Option.not_isSome_iff_eq_none, ← Registry.isKeyword_eq, h.keyword]
  exact Bool.false_ne_true

namespace Formula

variable {g : Engine} {total : String → String → Int}

/-- An operand is no keyword. -/
theorem not_isKeyword_token {f : Formula} (valid : f.Valid g total) {w : String}
    (h : f.token = .word w) : Registry.standard.isKeyword w = false := by
  cases f with
  | literal n =>
    cases h
    exact Registry.not_isKeyword_of_number (Integer.read?_write valid)
  | path | node => cases h

open Compile

/-- A row of two tokens around an operator has one keyword, if they are none. -/
theorem oneKeyword (op : Operator) {a b : Token}
    (ha : ∀ w, a = .word w → Registry.standard.isKeyword w = false)
    (hb : ∀ w, b = .word w → Registry.standard.isKeyword w = false) :
    OneKeyword .standard [a, .word op.word, b] 1 op.word op.keyword where
  word := rfl
  keyword := op.keyword?_word
  only i u hi hu := by
    match i with
    | 0 =>
      rw [ha u (Option.some.inj hi)] at hu
      cases hu
    | 1 => rfl
    | 2 =>
      rw [hb u (Option.some.inj hi)] at hu
      cases hu
    | i + 3 => cases hi

/-- The call of a keyword that stands between its two arguments. -/
theorem call_between {k : Keyword} (hargs : k.args = [.before 1, .after 1])
    (hnamed : k.named = []) (hliteral : k.literal = []) {a b c : Part} {x y : Expr}
    (ha : a.code = .ok x) (hc : c.code = .ok y) :
    call k [a, b, c] 1 = .ok (.call k.target [x, y] [] []) := by
  obtain ⟨a, _⟩ := a
  obtain ⟨c, _⟩ := c
  cases k
  cases hargs
  cases hnamed
  cases hliteral
  cases ha
  cases hc
  rfl

/-- **A row of two tokens around an operator** is the call of its function. -/
theorem group_between (op : Operator) {a b : Token} {x y : Expr}
    (ha : ∀ w, a = .word w → Registry.standard.isKeyword w = false)
    (hb : ∀ w, b = .word w → Registry.standard.isKeyword w = false) (root : Bool)
    (hx : Compile.token .standard (splitWord .standard) a = .ok x)
    (hy : Compile.token .standard (splitWord .standard) b = .ok y) :
    group .standard (splitWord .standard) [a, .word op.word, b] root =
      .ok (.call op.target [x, y] [] []) := by
  have one := oneKeyword op ha hb
  rw [one.group_eq_call (splitWord_of_isKeyword one.isKeyword root), parts, parts, parts, parts]
  have target : op.keyword.target = op.target := by cases op <;> rfl
  rw [← target]
  cases op <;> exact call_between rfl rfl rfl hx hy

theorem group_row {op : Operator} {left right : Formula} (hl : left.Valid g total)
    (hr : right.Valid g total) (root : Bool)
    (ihl : Compile.token .standard (splitWord .standard) left.token = .ok left.code)
    (ihr : Compile.token .standard (splitWord .standard) right.token = .ok right.code) :
    group .standard (splitWord .standard) [left.token, .word op.word, right.token] root =
      .ok (node op left right).code :=
  group_between op (fun _ => not_isKeyword_token hl) (fun _ => not_isKeyword_token hr) root ihl ihr

/-- **An operand means what it says.** -/
theorem token_operand {f : Formula} (valid : f.Valid g total) :
    Compile.token .standard (splitWord .standard) f.token = .ok f.code := by
  induction f with
  | literal n => rw [token, Compile.token, ofWord_write valid, code]
  | path name stat =>
    obtain ⟨hn, hs, -⟩ := valid
    have words : keywordsIn .standard (parts .standard (splitWord .standard)
        [.word name, .word stat]) = [] := by
      simp [keywordsIn_parts, keywordAt?, hn.keyword?_eq_none, hs.keyword?_eq_none]
    rw [token, Compile.token]
    show assemble .standard (parts .standard (splitWord .standard) [.word name, .word stat]) false = _
    rw [assemble, words, parts, parts, parts, Compile.token, Compile.token, hn.ofWord, hs.ofWord]
    rfl
  | node op left right ihl ihr =>
    rw [token, Compile.token]
    exact group_row valid.1 valid.2 false (ihl valid.1) (ihr valid.2)

/-- **A written formula compiles to its code.** -/
theorem meaning_text {op : Operator} {left right : Formula}
    (valid : (node op left right).Valid g total) :
    Registry.standard.meaning (node op left right).text = .ok (node op left right).code := by
  have tokens := (reads_row op (reads_operand valid.1) (reads_operand valid.2)).tokens?_eq
    (List.cons_ne_nil _ _)
  rw [Registry.meaning, Token.read, tokens]
  exact group_row valid.1 valid.2 true (token_operand valid.1) (token_operand valid.2)

end Formula

/-! ### Evaluation -/

namespace Formula

variable {g : Engine} {total : String → String → Int}

/-- A path means the total of its stat. -/
theorem resolve_path (hg : g.schema.kind? groupList = some (.list false)) {name stat : String}
    (valid : (path name stat).Valid g total) :
    g.resolve (.tuple [.ref name, .ref stat]) = .ok (.int (total name stat)) := by
  obtain ⟨-, -, -, declared, sum⟩ := valid
  have kind : g.schema.kind? stat = some .stat := by simpa [Schema.isStat] using declared
  have other : stat ≠ groupList := by
    rintro rfl
    rw [hg] at kind
    cases kind
  have value : g.stat name stat = .ok (.int (total name stat)) := by
    rw [Engine.stat, if_neg other, kind]
    simp only [sum]
    rfl
  show [Value.ref stat].foldlM g.follow (.ref name) = _
  exact (bind_pure _).trans value

theorem integer_of_resolve {v : Value} {n : Int} (h : g.resolve v = .ok (.int n)) :
    g.integer v = .ok n := by
  rw [Engine.integer, h]
  rfl

/-- **The code of a formula gives its value**, or its first fault, and changes nothing. -/
theorem eval_code (hg : g.schema.kind? groupList = some (.list false))
    (hr : g.registry = .standard) {f : Formula} (valid : f.Valid g total) (p : Powers)
    (scope : Scope) :
    (∀ n, f.value total = .ok n → ∃ v, Interpreter.eval p f.code scope g =
      some (.ok (v, scope), g) ∧ g.resolve v = .ok (.int n)) ∧
    ∀ e, f.value total = .error e → Interpreter.eval p f.code scope g =
      some (.error (.arithmetic e), g) := by
  induction f with
  | literal n =>
    refine ⟨fun m h => ?_, fun e h => nomatch h⟩
    cases h
    exact ⟨.int n, rfl, rfl⟩
  | path name stat =>
    refine ⟨fun m h => ?_, fun e h => nomatch h⟩
    cases h
    exact ⟨.tuple [.ref name, .ref stat], rfl, resolve_path hg valid⟩
  | node op left right ihl ihr =>
    obtain ⟨leftOk, leftFails⟩ := ihl valid.1
    obtain ⟨rightOk, rightFails⟩ := ihr valid.2
    have known : g.registry.function? op.target = some (.query op.query) := by
      rw [hr, op.function?_target]
    cases hx : left.value total with
    | error e =>
      have value : (node op left right).value total = .error e := by
        rw [Formula.value, hx]
        rfl
      rw [value, code]
      refine ⟨fun n h => (nomatch h), fun e' h => ?_⟩
      cases h
      exact Interpreter.eval_call_error_left (leftFails e hx)
    | ok x =>
      obtain ⟨v, hv, xv⟩ := leftOk x hx
      cases hy : right.value total with
      | error e =>
        have value : (node op left right).value total = .error e := by
          rw [Formula.value, hx, hy]
          rfl
        rw [value, code]
        refine ⟨fun n h => (nomatch h), fun e' h => ?_⟩
        cases h
        exact Interpreter.eval_call_error_right hv (rightFails e hy)
      | ok y =>
        obtain ⟨w, hw, yw⟩ := rightOk y hy
        have value : (node op left right).value total = op.apply x y := by
          rw [Formula.value, hx, hy]
          rfl
        rw [value, code, Interpreter.eval_call_query hv hw known,
          op.answer_eq (a := { positional := [v, w] }) (integer_of_resolve xv) (integer_of_resolve yw)]
        refine ⟨fun n h => ⟨.int n, ?_, rfl⟩, fun e h => ?_⟩
        all_goals
          rw [h]
          rfl

/-- The texts compiled so far do not matter for validity. -/
theorem valid_withMemory {f : Formula} (valid : f.Valid g total)
    (c : Std.ExtTreeMap String Script) (H : History) : f.Valid (g.withMemory c H) total := by
  induction f with
  | literal n => exact valid
  | path name stat => simpa [Valid] using valid
  | node op left right ihl ihr => exact ⟨ihl valid.1, ihr valid.2⟩

/-- A script with the code of a formula ends with its value, or with its first fault. -/
theorem run_code (hg : g.schema.kind? groupList = some (.list false))
    (hr : g.registry = .standard) {f : Formula} (valid : f.Valid g total) (fuel : Nat)
    (raw : String) (scope : Scope) :
    (do
      let v ← (runner fuel ⟨raw, f.code⟩).within scope
      Run.ask (·.resolve v)) g =
    some (((f.value total).map Value.int).mapError Fault.arithmetic, g) := by
  obtain ⟨ok, fails⟩ := eval_code hg hr valid (powers fuel) scope
  cases hv : f.value total with
  | ok n =>
    obtain ⟨v, eval, meant⟩ := ok n hv
    have ran : (runner fuel ⟨raw, f.code⟩).within scope g = some (.ok v, g) :=
      Run.bind_apply_ok eval
    rw [Run.bind_apply_ok ran, Run.ask, meant]
    rfl
  | error e =>
    have ran : (runner fuel ⟨raw, f.code⟩).within scope g = some (.error (.arithmetic e), g) :=
      Run.bind_apply_error (fails e hv)
    rw [Run.bind_apply_error ran]
    rfl

/-- **Written formulas compute what they say.**  An operation over valid operands compiles
with the usual vocabulary.  On every engine with that vocabulary, and with any bindings, it
evaluates to the value of the formula, or to its first fault, and leaves the engine as it
was, except for the texts compiled so far. -/
theorem evaluate_exact {g : Engine} (reachable : Reachable g) (hr : g.registry = .standard)
    {total : String → String → Int} {op : Operator} {left right : Formula}
    (valid : (node op left right).Valid g total) :
    (∃ s, Registry.standard.compile (node op left right).text = .ok s) ∧
    ∀ fuel bindings, ∃ cache, Game.evaluate fuel (node op left right).text bindings g =
      some ((((node op left right).value total).map Value.int).mapError Fault.arithmetic,
        g.withMemory cache g.history) := by
  have hs : Registry.standard.compile (node op left right).text =
      .ok ⟨(node op left right).text, (node op left right).code⟩ := by
    rw [Registry.compile, meaning_text valid]
    rfl
  generalize hscript : Script.mk (node op left right).text (node op left right).code = s at hs
  refine ⟨⟨s, hs⟩, fun fuel bindings => ⟨g.cache.insert (node op left right).text s, ?_⟩⟩
  rw [Game.evaluate_of_compile reachable.sound (hr ▸ hs), ← hscript]
  refine run_code ?_ ?_ (valid_withMemory valid _ _) fuel _ _
  · exact reachable.kind?_groupList
  · exact hr

/-- An entity whose stat `h` is 3. -/
def post : Entity := { name := "a", stats := .ofList [("h", (3 : Int))] }

/-- A game with that stat. -/
def parish : Config := { catalog := { stats := ["h"] } }

/-- An engine with the usual vocabulary and that entity. -/
def yard : Engine :=
  { registry := .standard
    config := parish
    schema := (Schema.ofCatalog { stats := ["h"] }).toOption.getD {}
    state := { entities := .ofList [("a", post)], dice := { seed := 0 } }
    history := .ofList [] }

theorem reachable_yard : Reachable yard := by
  have start : Engine.start parish .standard = .ok { yard with state := .start 0 } := rfl
  have joins : Mutation.insert post { yard with state := .start 0 } = some (.ok (), yard) := by rfl
  exact .insert (.start start) joins

theorem statTotal_yard : yard.statTotal "a" "h" = .ok 3 := by
  have size : yard.state.entities.size = 1 := by rfl
  have found : yard.entity? "a" = some post := by rfl
  have own : Engine.addStat "h" 0 post = .ok 3 := by rfl
  have alone : yard.schema.parents "a" post = [] := by rfl
  rw [Engine.statTotal, Engine.walk, size, Engine.walkFrom, found]
  simp only [alone, own]
  rfl

/-- In the yard `(a.h + 4) * -3` is -21. -/
theorem evaluate_exact_yard :
    ∃ cache, Game.evaluate 0 "(a.h + 4) * -3" {} yard =
      some (.ok (.int (-21)), yard.withMemory cache yard.history) := by
  have plain {w : String} (hw : w = "a" ∨ w = "h") : Plain w := by
    rcases hw with rfl | rfl
    all_goals exact {
      ne := by decide
      letters := List.forall_mem_singleton.2 ⟨rfl, by decide⟩
      head := fun _ h => Option.some.inj h ▸ ⟨rfl, by decide⟩
      number := rfl
      keyword := by rfl
      reserved := by decide }
  let f := node .add (path "a" "h") (literal 4)
  have operand : (path "a" "h").Valid yard fun _ _ => 3 :=
    ⟨plain (.inl rfl), plain (.inr rfl), rfl, rfl, statTotal_yard⟩
  have valid : (node .mul f (literal (-3))).Valid yard fun _ _ => 3 :=
    ⟨⟨operand, (by decide : Integer.InRange 4)⟩, (by decide : Integer.InRange (-3))⟩
  have text : (node .mul f (literal (-3))).text = "(a.h + 4) * -3" := by decide
  have value : (node .mul f (literal (-3))).value (fun _ _ => 3) = .ok (-21) := by decide
  have evaluated := (evaluate_exact reachable_yard rfl valid).2 0 {}
  rw [text, value] at evaluated
  exact evaluated

end Formula
end Tabletop
