/-
# Deferral: a script in braces is the script, for later

A block keeps its text to be read later.  Where a script ends is found by counting
braces outside of strings, without reading it; a text that spells tokens has balanced
braces (`Spells.balanced`), so a script in braces is one block that keeps the whole of it,
trimmed, and the trimmed text means what the script meant.

So `delay n {s}` schedules the script `s`: once, with its code, and with the scope in
which the call stood (`Reachable.deferral_transparent`).
-/

import Tabletop.Proofs.Binding
import Tabletop.Proofs.Evaluation
import Tabletop.Proofs.Recognition
import Tabletop.Proofs.Trimming
import Tabletop.Proofs.Vocabulary

namespace Tabletop

/-! ### A script in braces -/

/-- One text behind another closes what it closes, and then what the other one does. -/
theorem Balanced.append {depth around : Nat} {a b : List Char} (ha : Balanced depth a)
    (hb : Balanced around b) : Balanced (around + depth) (a ++ b) := by
  induction ha with
  | nil => exact hb
  | plain quote opening closing _ ih => exact .plain quote opening closing ih
  | @quoted depth quote body _ rest isQuote inside _ ih =>
    rw [List.cons_append, List.append_assoc]
    exact .quoted isQuote inside ih
  | opening _ ih => exact .opening ih
  | closing _ ih => exact .closing ih

/-- What ends no word is no brace and no quote. -/
theorem Balanced.of_letters {w : List Char} (h : ∀ c ∈ w, endsWord c = false) : Balanced 0 w := by
  induction w with
  | nil => exact .nil
  | cons c w ih =>
    obtain ⟨hc, hw⟩ := List.forall_mem_cons.1 h
    refine .plain ?_ ?_ ?_ (ih hw)
    · rw [isQuote, Bool.or_eq_false_iff, beq_eq_false_iff_ne, beq_eq_false_iff_ne]
      constructor
      all_goals
        rintro rfl
        cases hc
    all_goals
      rintro rfl
      cases hc

/-- **The braces of a script match.** -/
theorem Spells.balanced {text : List Char} {ts : List Token} (h : Spells text ts) :
    Balanced 0 text := by
  induction h with
  | nil => exact .nil
  | blank blank _ ih =>
    obtain ⟨noQuote, noOpening, noClosing⟩ := plain_of_isBlank blank
    exact .plain noQuote noOpening noClosing ih
  | word _ letters _ _ _ ih => exact (Balanced.of_letters letters).append ih
  | quoted quote inside _ ih => exact .quoted quote inside ih
  | block balanced _ _ ih => exact .opening (balanced.append (.closing ih))
  | bracket b _ _ _ inside ih =>
    cases b with
    | round =>
      exact .plain rfl (by decide) (by decide)
        (inside.append (.plain rfl (by decide) (by decide) ih))
    | square =>
      exact .plain rfl (by decide) (by decide)
        (inside.append (.plain rfl (by decide) (by decide) ih))

/-- A script without its outer blanks. -/
def trimmed (s : String) : String := String.ofList (trimBlanks s.toList)

/-- A text in braces. -/
def braced (s : String) : String := "\x7b" ++ s ++ "\x7d"

/-- A trimmed script spells what it did. -/
theorem read_trimmed {s : String} {ts : List Token} (h : Token.read s = .ok ts) :
    Token.read (trimmed s) = .ok ts := by
  obtain ⟨spells, ne⟩ := tokens?_eq_ok_iff.1 h
  rw [Token.read, trimmed, String.toList_ofList]
  exact tokens?_eq_ok_iff.2 ⟨spells.trim, ne⟩

/-- **A script in braces is a block** that keeps it, whatever follows. -/
theorem spells_braced {s : String} {ts us : List Token} {rest : List Char}
    (h : Token.read s = .ok ts) (hr : Spells rest us) :
    Spells ((braced s).toList ++ rest) (.block (trimmed s) :: us) := by
  obtain ⟨spells, ne⟩ := tokens?_eq_ok_iff.1 h
  have filled : trimBlanks s.toList ≠ [] := by
    intro empty
    have nothing := spells.trim
    rw [empty] at nothing
    cases tokens?_eq_ok_iff.2 ⟨nothing, ne⟩
  simpa [braced, trimmed] using Spells.block spells.balanced filled hr

theorem read_braced {s : String} {ts : List Token} (h : Token.read s = .ok ts) :
    Token.read (braced s) = .ok [.block (trimmed s)] := by
  refine tokens?_eq_ok_iff.2 ⟨?_, List.cons_ne_nil _ _⟩
  simpa using spells_braced h .nil

/-- A trimmed script means what it did. -/
theorem Registry.meaning_trimmed (r : Registry) {s : String} {ts : List Token}
    (h : Token.read s = .ok ts) : r.meaning (trimmed s) = r.meaning s := by
  rw [meaning, meaning, read_trimmed h, h]

/-! ### The call that defers a script -/

namespace Integer

/-- A written integer is made of digits behind an optional sign. -/
theorem of_read? {w : List Char} {m : Int} (h : read? w = some m) :
    w ≠ [] ∧ ∀ c ∈ w, c.isDigit = true ∨ c = '+' ∨ c = '-' := by
  have natural {w : List Char} {k : Nat} (h : readNatural? w = some k) :
      w ≠ [] ∧ ∀ c ∈ w, c.isDigit = true := by
    rw [readNatural?] at h
    split at h
    · next digits => simpa using digits
    · cases h
  have signed {c : Char} {digits : List Char} (sign : c = '+' ∨ c = '-')
      (h : ∀ c ∈ digits, c.isDigit = true) :
      c :: digits ≠ [] ∧ ∀ d ∈ c :: digits, d.isDigit = true ∨ d = '+' ∨ d = '-' :=
    ⟨List.cons_ne_nil _ _, List.forall_mem_cons.2 ⟨.inr sign, fun d hd => .inl (h d hd)⟩⟩
  unfold read? at h
  split at h
  · next digits =>
    obtain ⟨k, hk, -⟩ := Option.bind_eq_some_iff.1 h
    exact signed (.inr rfl) (natural hk).2
  · obtain ⟨k, hk, -⟩ := Option.bind_eq_some_iff.1 h
    unfold readUnsigned? at hk
    split at hk
    · exact signed (.inl rfl) (natural hk).2
    · exact ⟨(natural hk).1, fun c hc => .inl ((natural hk).2 c hc)⟩

end Integer

/-- The text of a call that defers a script. -/
def deferring (n s : String) : String := "delay " ++ n ++ " " ++ braced s

/-- The usual keyword of a call that defers. -/
def delayKeyword : Keyword := { name := "delay", target := "delay", args := [.after 1, .after 2] }

theorem keyword?_delay : Registry.standard.keyword? "delay" = some delayKeyword := rfl

/-- A registry with the usual word to defer. -/
structure Registry.Defers (r : Registry) : Prop where
  keyword : r.keyword? "delay" = some delayKeyword
  functions : r.knowsFunctions = true

theorem Registry.defers_standard : Registry.standard.Defers where
  keyword := keyword?_delay
  functions := rfl

open Compile

/-- A written integer goes on up to what ends a word. -/
theorem endsWord_of_read? {n : String} {m : Int} (hn : Integer.read? n.toList = some m) :
    ∀ c ∈ n.toList, endsWord c = false := by
  intro c hc
  rcases (Integer.of_read? hn).2 c hc with digit | rfl | rfl
  · exact Reader.endsWord_of_isDigit digit
  all_goals rfl

/-- A written integer is no chain. -/
theorem word_of_read? {n : String} {m : Int} (hn : Integer.read? n.toList = some m) :
    Word.Means n.toList (.word n) := by
  have noDot : '.' ∉ n.toList := fun dot => by
    rcases (Integer.of_read? hn).2 _ dot with digit | same | same
    · cases digit
    all_goals cases same
  have means := Word.Means.plain (w := n.toList) (by simp [Word.isChain, noDot])
  rwa [String.ofList_toList] at means

/-- A call that defers reads as its word, its number and its trimmed script. -/
theorem read_deferring {n s : String} {m : Int} {ts : List Token}
    (hn : Integer.read? n.toList = some m) (hs : Token.read s = .ok ts) :
    Token.read (deferring n s) = .ok [.word "delay", .word n, .block (trimmed s)] := by
  have delay : Word.Means "delay".toList (.word "delay") := .plain (by decide)
  have letters : ∀ c ∈ "delay".toList, endsWord c = false := forall_mem_of_all (by decide)
  have gap (rest : List Char) : EndsWord (' ' :: rest) := .cons rfl rest
  have block := spells_braced hs .nil
  have second := Spells.word (Integer.of_read? hn).1 (endsWord_of_read? hn) (word_of_read? hn)
    (gap _) (.blank rfl block)
  have first := Spells.word (by decide) letters delay (gap _) (.blank rfl second)
  refine tokens?_eq_ok_iff.2 ⟨?_, List.cons_ne_nil _ _⟩
  simpa [deferring] using first

/-- **A call that defers** means its number and its trimmed script. -/
theorem meaning_deferring {r : Registry} (hr : r.Defers) {n s : String} {m : Int} {ts : List Token}
    (hn : Integer.read? n.toList = some m) (plain : r.isKeyword n = false)
    (hs : Token.read s = .ok ts) : r.meaning (deferring n s) =
      .ok (.call "delay" [.literal (.int m), .literal (.str (trimmed s))] [] []) := by
  have one : OneKeyword r [.word "delay", .word n, .block (trimmed s)] 0 "delay" delayKeyword := {
    word := rfl
    keyword := hr.keyword
    only := by
      intro i u hi hu
      match i with
      | 0 => rfl
      | 1 =>
        cases hi
        rw [plain] at hu
        cases hu
      | 2 => cases hi }
  have number : Expr.ofWord n = .literal (.int m) := by rw [Expr.ofWord, hn]
  rw [Registry.meaning, read_deferring hn hs]
  show script r _ = _
  rw [script, one.group_eq_call (splitWord_of_isKeyword one.isKeyword true), parts, parts, parts,
    parts, Compile.token, Compile.token, Compile.token, number]
  rfl

/-- **A call that defers** schedules the script of its text, and changes nothing else. -/
theorem eval_deferring {S : Script → Prop} {g : Engine} (sound : g.Sound S)
    (hf : g.registry.function? "delay" = some (.control .delay)) {source : String} {d : Script}
    (hd : g.registry.compile source = .ok d) (m : Int) (p : Powers) (scope : Scope) :
    Interpreter.eval p (.call "delay" [.literal (.int m), .literal (.str source)] [] []) scope g =
      some (.ok (.bool true, scope),
        Clock.schedule (.script d) m scope { g with cache := g.cache.insert source d }) := by
  have callback : g.callback (.str source) =
      .ok (.script d, { g with cache := g.cache.insert source d }) := by
    rw [Engine.callback, sound.compile_eq, hd]
    rfl
  have scheduled : (Run.change (·.callback (.str source)) : Run Callback) g =
      some (.ok (.script d), { g with cache := g.cache.insert source d }) := by
    rw [Run.change, callback]
  rw [Interpreter.eval_call (v := .int m) (w := .str source) rfl rfl hf]
  show Run.andThen (Run.andThen (Run.change (·.callback (.str source))) _) _ g = _
  rw [Run.andThen, Run.andThen, scheduled]
  rfl

/-- An engine with one delay more, at the end of the queue; the texts compiled so far apart,
nothing else has changed. -/
def Engine.Gains (g h : Engine) (d : Delay) : Prop :=
  ∃ cache, h = (g.withState { g.state with delays := g.state.delays.push d }).withMemory cache
    g.history

/-- **Deferral is transparent.**  A script in braces is the block of the trimmed script, which
means what the script means, with any vocabulary, and if it fails to mean anything, for the
same cause.  So with the usual word for it, to defer a script that compiles by a written
integer, in any scope, schedules exactly one delay: the code of the script, in that scope. -/
theorem deferral_transparent {s : String} {ts : List Token} (read : Token.read s = .ok ts) :
    Token.read (braced s) = .ok [.block (trimmed s)] ∧
    (∀ r : Registry, r.meaning (trimmed s) = r.meaning s) ∧
    ∀ g, Reachable g → g.registry.Defers → ∀ code, g.registry.meaning s = .ok code →
      ∀ n m, Integer.read? n.toList = some m → g.registry.isKeyword n = false →
        ∃ d, g.registry.compile (deferring n s) = .ok d ∧ ∀ fuel,
          (∀ scope, ∃ h, runner fuel d scope g = some (.ok (.bool true, scope), h) ∧
            g.Gains h ⟨max m 0, .script ⟨trimmed s, code⟩, scope⟩) ∧
          ∀ bindings, ∃ h, Game.evaluate fuel (deferring n s) bindings g =
              some (.ok (.bool true), h) ∧
            g.Gains h ⟨max m 0, .script ⟨trimmed s, code⟩, { bindings }⟩ := by
  refine ⟨read_braced read, fun r => r.meaning_trimmed read, ?_⟩
  intro g reachable usual code hcode n m hn plain
  have hd : g.registry.compile (deferring n s) = .ok ⟨deferring n s,
      .call "delay" [.literal (.int m), .literal (.str (trimmed s))] [] []⟩ := by
    rw [Registry.compile, meaning_deferring usual hn plain read]
    rfl
  have hs : g.registry.compile (trimmed s) = .ok ⟨trimmed s, code⟩ := by
    rw [Registry.compile, g.registry.meaning_trimmed read, hcode]
    rfl
  have hf : g.registry.function? "delay" = some (.control .delay) := by
    rw [Registry.function?, usual.functions]
    rfl
  refine ⟨_, hd, fun fuel => ⟨fun scope => ?_, fun bindings => ?_⟩⟩
  · exact ⟨_, eval_deferring reachable.sound hf hs m _ scope, _, rfl⟩
  · have ran := eval_deferring (reachable.sound.remember hd) hf hs m (powers fuel) { bindings }
    have within := Run.bind_apply_ok (f := fun p => pure p.1) ran
    rw [Game.evaluate_of_compile reachable.sound hd]
    exact ⟨_, (Run.bind_apply_ok within).trans rfl, _, rfl⟩

/-- A script that is not trimmed, and defers another one. -/
def errand : String := " delay 2 \x7b1 + 1\x7d\n"

/-- A game with the usual vocabulary and nothing else. -/
def bareGame : Engine :=
  { registry := .standard
    config := {}
    schema := (Schema.ofCatalog {}).toOption.getD {}
    state := .start 0
    history := .ofList [] }

theorem reachable_bareGame : Reachable bareGame := by
  have start : Engine.start {} .standard = .ok bareGame := rfl
  exact .start start

/-- The errand is deferred itself, by `+3` ticks. -/
theorem deferral_transparent_errand :
    Token.read (braced errand) = .ok [.block "delay 2 \x7b1 + 1\x7d"] ∧
    ∃ h s, Game.evaluate 0 "delay +3 \x7b delay 2 \x7b1 + 1\x7d\n\x7d" {} bareGame =
        some (.ok (.bool true), h) ∧
      h.state.delays.toList = [⟨3, .script s, {}⟩] ∧
      bareGame.registry.meaning errand = .ok s.code := by
  have inner : Token.read "1 + 1" = .ok [.word "1", .word "+", .word "1"] := by cbv
  have outer : Token.read errand =
      .ok [.word "delay", .word "2", .block "1 + 1"] := by cbv
  have number {w : String} {n : Int} (h : Integer.read? w.toList = some n) :
      bareGame.registry.isKeyword w = false := Registry.not_isKeyword_of_number h
  have usual : bareGame.registry.Defers := Registry.defers_standard
  have trims : trimmed errand = deferring "2" "1 + 1" := by decide
  have means : bareGame.registry.meaning errand = .ok _ :=
    (bareGame.registry.meaning_trimmed outer).symm.trans
      (trims ▸ meaning_deferring usual rfl (number rfl) inner)
  obtain ⟨block, -, defers⟩ := deferral_transparent outer
  obtain ⟨d, -, evaluates⟩ :=
    defers bareGame reachable_bareGame usual _ means "+3" 3 rfl (number rfl)
  obtain ⟨h, ran, cache, rfl⟩ := (evaluates 0).2 {}
  exact ⟨block, _, _, ran, rfl, means⟩

end Tabletop
