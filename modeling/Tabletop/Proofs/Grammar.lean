/-
# The grammar of scripts

What a text spells can be said without an automaton.  A text between quotes stands for
a text (`Quotes`), the braces of a block match outside its strings (`Balanced`), and a
script is a row of blanks, words, strings, blocks and brackets (`Spells`), where a word
goes on up to a blank, a delimiter or the end.

Here the reader is shown to follow the grammar: what a text spells is what it reads as,
wherever it stands between tokens (`Spells.reads`).  The other half, that a reader finds
nothing else, is in `Tabletop.Proofs.Recognition`.
-/

import Tabletop.Proofs.Reading

namespace Tabletop

/-! ### The grammar -/

/-- A text between quotes, up to the closing one, stands for a text; `true` behind a
backslash. -/
inductive Quotes (quote : Char) : Bool → List Char → List Char → Prop
  | nil : Quotes quote false [] []
  | plain {c body text} : c ≠ '\\' → c ≠ quote → Quotes quote false body text →
      Quotes quote false (c :: body) (c :: text)
  | backslash {body text} : Quotes quote true body text → Quotes quote false ('\\' :: body) text
  | escaped {c body text} : Quotes quote false body text →
      Quotes quote true (c :: body) (Reader.unescape c :: text)

/-- The strings of a text end, and the braces outside of them match, but for some that
close blocks opened before. -/
inductive Balanced : Nat → List Char → Prop
  | nil : Balanced 0 []
  | plain {depth c rest} : isQuote c = false → c ≠ '\x7b' → c ≠ '\x7d' → Balanced depth rest →
      Balanced depth (c :: rest)
  | quoted {depth quote body text rest} : isQuote quote = true → Quotes quote false body text →
      Balanced depth rest → Balanced depth (quote :: (body ++ quote :: rest))
  | opening {depth rest} : Balanced (depth + 1) rest → Balanced depth ('\x7b' :: rest)
  | closing {depth rest} : Balanced depth rest → Balanced (depth + 1) ('\x7d' :: rest)

/-- The token that a word means: itself, or the group of its parts if it is a chain and
none of them is empty. -/
inductive Word.Means (w : List Char) : Token → Prop
  | plain : isChain w = false → Means w (.word (String.ofList w))
  | chain : isChain w = true → [] ∉ parts w →
      Means w (.group ((parts w).map fun part => .word (String.ofList part)) (String.ofList w))

/-- What a check finds of every character holds of every character. -/
theorem forall_mem_of_all {P : Char → Prop} [DecidablePred P] {text : List Char}
    (h : text.all (fun c => decide (P c)) = true) : ∀ c ∈ text, P c :=
  fun c hc => of_decide_eq_true (List.all_eq_true.1 h c hc)

/-- What follows a word: the end, or what ends it. -/
def EndsWord (rest : List Char) : Prop := ∀ c ∈ rest.head?, endsWord c = true

theorem EndsWord.nil : EndsWord [] := fun _ hc => absurd hc (Option.not_mem_none _)

theorem EndsWord.cons {c : Char} (hc : endsWord c = true) (rest : List Char) :
    EndsWord (c :: rest) := by
  intro d hd
  cases hd
  exact hc

/-- A text spells a row of tokens. -/
inductive Spells : List Char → List Token → Prop
  | nil : Spells [] []
  | blank {c rest ts} : isBlank c = true → Spells rest ts → Spells (c :: rest) ts
  | word {w t rest ts} : w ≠ [] → (∀ c ∈ w, endsWord c = false) → Word.Means w t →
      EndsWord rest → Spells rest ts → Spells (w ++ rest) (t :: ts)
  | quoted {quote body text rest ts} : isQuote quote = true → Quotes quote false body text →
      Spells rest ts →
      Spells (quote :: (body ++ quote :: rest)) (.quoted (String.ofList text) :: ts)
  | block {body rest ts} : Balanced 0 body → trimBlanks body ≠ [] → Spells rest ts →
      Spells ('\x7b' :: (body ++ '\x7d' :: rest))
        (.block (String.ofList (trimBlanks body)) :: ts)
  | bracket {inner items rest ts} (b : Bracket) : Spells inner items →
      (b = .round → items ≠ []) → Spells rest ts →
      Spells (b.opening :: (inner ++ b.closing :: rest))
        (b.token items (String.ofList (trimBlanks inner)) :: ts)

/-! ### Words -/

namespace Word

theorem ne_nil_of_isChain {w : List Char} (h : isChain w = true) : w ≠ [] := by
  rintro rfl
  cases h

theorem chain_eq_ok_iff {byte : Nat} {ps : List (List Char)} {ts : List Token} :
    chain byte ps = .ok ts ↔ [] ∉ ps ∧ ts = ps.map fun part => .word (String.ofList part) := by
  induction ps generalizing byte ts with
  | nil => simp [chain, eq_comm]
  | cons part ps ih =>
    rw [chain]
    split
    · next empty =>
      rw [List.isEmpty_iff] at empty
      simp [empty]
    · next filled =>
      rw [List.isEmpty_iff] at filled
      cases h : chain (byte + byteLength part + 1) ps with
      | error e =>
        constructor
        · intro failed
          cases failed
        · rintro ⟨full, -⟩
          have rest : chain (byte + byteLength part + 1) ps = .ok _ :=
            ih.2 ⟨fun hm => full (List.mem_cons_of_mem _ hm), rfl⟩
          rw [h] at rest
          cases rest
      | ok rest =>
        obtain ⟨full, rfl⟩ := ih.1 h
        have whole : [] ∉ part :: ps := by
          rw [List.mem_cons, not_or]
          exact ⟨Ne.symm filled, full⟩
        constructor
        · intro h
          cases h
          exact ⟨whole, rfl⟩
        · rintro ⟨-, rfl⟩
          rfl

/-- **A word is given the token it means**, wherever it starts. -/
theorem token_eq_ok_iff {byte : Nat} {w : List Char} {t : Token} :
    token byte w = .ok t ↔ Means w t := by
  rw [token]
  split
  · next chained =>
    constructor
    · intro h
      cases hc : chain byte (parts w) with
      | error e =>
        rw [hc] at h
        cases h
      | ok items =>
        rw [hc] at h
        cases h
        obtain ⟨full, rfl⟩ := chain_eq_ok_iff.1 hc
        exact .chain chained full
    · intro h
      cases h with
      | plain single =>
        rw [chained] at single
        cases single
      | chain _ full =>
        rw [chain_eq_ok_iff.2 ⟨full, rfl⟩]
        rfl
  · next single =>
    rw [Bool.not_eq_true] at single
    constructor
    · intro h
      cases h
      exact .plain single
    · intro h
      cases h with
      | plain => rfl
      | chain chained =>
        rw [single] at chained
        cases chained

end Word

/-! ### Reading what is spelled -/

namespace Reader

/-- The reader behind a text that it passes over, going on in a mode. -/
def passed (r : Reader) (text : List Char) (mode : Mode) : Reader where
  position := r.position + byteLength text
  mode := mode
  level := { r.level with text := text.reverse ++ r.level.text }
  opened := r.opened

theorem passed_nil (r : Reader) : r.passed [] r.mode = r := rfl

theorem passed_pass (r : Reader) (c : Char) (text : List Char) (mode mode' : Mode) :
    (r.pass c mode).passed text mode' = r.passed (c :: text) mode' := by
  simp [passed, pass, Nat.add_assoc]

theorem passed_passed (r : Reader) (a b : List Char) (mode mode' : Mode) :
    (r.passed a mode).passed b mode' = r.passed (a ++ b) mode' := by
  simp [passed, Nat.add_assoc]

variable {r : Reader}

/-- A step over a character, and the rest of the way. -/
theorem run_cons_passed {c : Char} {text : List Char} {mode mode' : Mode}
    (step : r.step c = .ok (r.pass c mode))
    (rest : (r.pass c mode).run text = .ok ((r.pass c mode).passed text mode')) :
    r.run (c :: text) = .ok (r.passed (c :: text) mode') := by
  rw [run_cons, step]
  exact rest.trans (congrArg Except.ok (r.passed_pass c text mode mode'))

/-- Two pieces of the way. -/
theorem run_append_passed {a b : List Char} {mode mode' : Mode}
    (first : r.run a = .ok (r.passed a mode))
    (second : (r.passed a mode).run b = .ok ((r.passed a mode).passed b mode')) :
    r.run (a ++ b) = .ok (r.passed (a ++ b) mode') := by
  rw [run_append, first]
  exact second.trans (congrArg Except.ok (r.passed_passed a b mode mode'))

/-- Inside a string a reader goes on to its end. -/
theorem run_quotes {quote : Char} {escaped : Bool} {body text read : List Char}
    (h : Quotes quote escaped body text) (hr : r.mode = .quoted quote escaped read) :
    r.run body = .ok (r.passed body (.quoted quote false (text.reverse ++ read))) := by
  induction h generalizing r read with
  | nil =>
    rw [List.reverse_nil, List.nil_append, ← hr, passed_nil]
    rfl
  | @plain c body text slash other _ ih =>
    have step : r.step c = .ok (r.pass c (.quoted quote false (c :: read))) := by
      rw [Reader.step, hr]
      exact (if_neg slash).trans (if_neg other)
    have tail := ih (r := r.pass c (.quoted quote false (c :: read))) rfl
    rw [List.reverse_cons, List.append_assoc]
    exact run_cons_passed step tail
  | @backslash body text _ ih =>
    have step : r.step '\\' = .ok (r.pass '\\' (.quoted quote true read)) := by
      rw [Reader.step, hr]
      exact if_pos rfl
    exact run_cons_passed step (ih rfl)
  | @escaped c body text _ ih =>
    have step : r.step c = .ok (r.pass c (.quoted quote false (unescape c :: read))) := by
      rw [Reader.step, hr]
    have tail := ih (r := r.pass c (.quoted quote false (unescape c :: read))) rfl
    rw [List.reverse_cons, List.append_assoc]
    exact run_cons_passed step tail

/-- Inside a string of a block a reader goes on to its end. -/
theorem run_quotes_block {start depth : Nat} {quote : Char} {escaped : Bool}
    {body text read : List Char} (h : Quotes quote escaped body text)
    (hr : r.mode = .block start depth (some (quote, escaped)) read) :
    r.run body = .ok (r.passed body
      (.block start depth (some (quote, false)) (body.reverse ++ read))) := by
  induction h generalizing r read with
  | nil =>
    rw [List.reverse_nil, List.nil_append, ← hr, passed_nil]
    rfl
  | @plain c body text slash other _ ih =>
    have step : r.step c =
        .ok (r.pass c (.block start depth (some (quote, false)) (c :: read))) := by
      simp only [Reader.step, hr, slash, other, Bool.false_eq_true, if_false]
    have tail := ih (r := r.pass c (.block start depth (some (quote, false)) (c :: read))) rfl
    rw [List.reverse_cons, List.append_assoc]
    exact run_cons_passed step tail
  | @backslash body text _ ih =>
    have step : r.step '\\' =
        .ok (r.pass '\\' (.block start depth (some (quote, true)) ('\\' :: read))) := by
      simp only [Reader.step, hr, Bool.false_eq_true, if_false, if_true]
    have tail := ih (r := r.pass '\\' (.block start depth (some (quote, true)) ('\\' :: read))) rfl
    rw [List.reverse_cons, List.append_assoc]
    exact run_cons_passed step tail
  | @escaped c body text _ ih =>
    have step : r.step c =
        .ok (r.pass c (.block start depth (some (quote, false)) (c :: read))) := by
      simp only [Reader.step, hr, if_true]
    have tail := ih (r := r.pass c (.block start depth (some (quote, false)) (c :: read))) rfl
    rw [List.reverse_cons, List.append_assoc]
    exact run_cons_passed step tail

/-- Inside a block a reader goes on, and closes what the text closes. -/
theorem run_balanced {start depth around : Nat} {body read : List Char} (h : Balanced depth body)
    (hr : r.mode = .block start (around + depth) none read) :
    r.run body = .ok (r.passed body (.block start around none (body.reverse ++ read))) := by
  induction h generalizing r read with
  | nil =>
    rw [List.reverse_nil, List.nil_append, ← Nat.add_zero around, ← hr, passed_nil]
    rfl
  | @plain depth c rest quote opening closing _ ih =>
    have step : r.step c = .ok (r.pass c (.block start (around + depth) none (c :: read))) := by
      simp only [Reader.step, hr, quote, opening, closing, Bool.false_eq_true, if_false]
    have tail := ih (r := r.pass c (.block start (around + depth) none (c :: read))) rfl
    rw [List.reverse_cons, List.append_assoc]
    exact run_cons_passed step tail
  | @quoted depth quote body _ rest isQuote inside _ ih =>
    have opens : r.step quote = .ok
        (r.pass quote (.block start (around + depth) (some (quote, false)) (quote :: read))) := by
      simp only [Reader.step, hr, isQuote, if_true]
    let r₁ := r.pass quote (.block start (around + depth) (some (quote, false)) (quote :: read))
    have through := run_quotes_block (r := r₁) inside rfl
    let r₂ := r₁.passed body
      (.block start (around + depth) (some (quote, false)) (body.reverse ++ quote :: read))
    have plain : quote ≠ '\\' := by
      rintro rfl
      cases isQuote
    have closes : r₂.step quote = .ok (r₂.pass quote
        (.block start (around + depth) none (quote :: (body.reverse ++ quote :: read)))) := by
      simp only [Reader.step, r₂, passed, plain, Bool.false_eq_true, if_false, if_true]
    have tail := ih (r := r₂.pass quote
      (.block start (around + depth) none (quote :: (body.reverse ++ quote :: read)))) rfl
    have whole := run_cons_passed opens (run_append_passed through (run_cons_passed closes tail))
    have order : (quote :: (body ++ quote :: rest)).reverse ++ read =
        rest.reverse ++ quote :: (body.reverse ++ quote :: read) := by simp
    rwa [order]
  | @opening depth rest _ ih =>
    have step : r.step '\x7b' =
        .ok (r.pass '\x7b' (.block start (around + (depth + 1)) none ('\x7b' :: read))) := by
      rw [Reader.step, hr]
      rfl
    have tail := ih (r := r.pass '\x7b'
      (.block start (around + (depth + 1)) none ('\x7b' :: read))) rfl
    rw [List.reverse_cons, List.append_assoc]
    exact run_cons_passed step tail
  | @closing depth rest _ ih =>
    have step : r.step '\x7d' =
        .ok (r.pass '\x7d' (.block start (around + depth) none ('\x7d' :: read))) := by
      rw [Reader.step, hr]
      rfl
    have tail := ih (r := r.pass '\x7d' (.block start (around + depth) none ('\x7d' :: read))) rfl
    rw [List.reverse_cons, List.append_assoc]
    exact run_cons_passed step tail

/-- A reader is done with a string as soon as it is closed. -/
theorem run_quoted {quote : Char} {body text : List Char} (hq : isQuote quote = true)
    (h : Quotes quote false body text) (hr : r.mode = .between) :
    r.run (quote :: (body ++ [quote])) =
      .ok (r.after (quote :: (body ++ [quote])) [.quoted (String.ofList text)]) := by
  have opens : r.step quote = .ok (r.pass quote (.quoted quote false [])) := by
    rw [step, hr]
    simp only [isQuote, Bool.or_eq_true, beq_iff_eq] at hq
    rcases hq with rfl | rfl <;> rfl
  let r₁ := r.pass quote (.quoted quote false [])
  let r₂ := r₁.passed body (.quoted quote false (text.reverse ++ []))
  have through : r₁.run body = .ok r₂ := run_quotes h rfl
  have plain : quote ≠ '\\' := by
    rintro rfl
    cases hq
  have closes : r₂.step quote =
      .ok ((r₂.passed [quote] .between).push (.quoted (String.ofList text))) := by
    simp only [step, r₂, passed, plain, if_false, if_true]
    simp [pass]
  rw [run_cons, opens]
  show r₁.run (body ++ [quote]) = _
  rw [run_append, through]
  show (r₂.step quote).bind _ = _
  rw [closes, passed_passed, passed_pass]
  rfl

/-- A reader is done with a block as soon as it is closed. -/
theorem run_block {body : List Char} (h : Balanced 0 body) (ne : trimBlanks body ≠ [])
    (hr : r.mode = .between) :
    r.run ('\x7b' :: (body ++ ['\x7d'])) = .ok (r.after ('\x7b' :: (body ++ ['\x7d']))
      [.block (String.ofList (trimBlanks body))]) := by
  have opens : r.step '\x7b' = .ok (r.pass '\x7b' (.block r.position 0 none [])) := by
    rw [step, hr]
    rfl
  let r₁ := r.pass '\x7b' (.block r.position 0 none [])
  let r₂ := r₁.passed body (.block r.position 0 none (body.reverse ++ []))
  have inside : r₁.mode = .block r.position (0 + 0) none [] := rfl
  have through : r₁.run body = .ok r₂ := run_balanced h inside
  have kept : trimRead (body.reverse ++ []) = trimBlanks body := by
    rw [List.append_nil, trimRead_reverse]
  have closes : r₂.step '\x7d' =
      .ok ((r₂.passed ['\x7d'] .between).push (.block (String.ofList (trimBlanks body)))) := by
    have last : r₂.step '\x7d' =
        (r₂.pass '\x7d' .between).endBlock r.position (body.reverse ++ []) := rfl
    rw [last, endBlock, kept]
    simp only [List.isEmpty_iff, ne, if_false]
    rfl
  rw [run_cons, opens]
  show r₁.run (body ++ ['\x7d']) = _
  rw [run_append, through]
  show (r₂.step '\x7d').bind _ = _
  rw [closes, passed_passed, passed_pass]
  rfl

/-! ### One piece after another -/

/-- Nothing reads as no tokens. -/
theorem reads_nil : Reads [] [] := by
  refine .of_run fun r hr => ?_
  obtain ⟨position, mode, level, opened⟩ := r
  cases hr
  rfl

/-- What reads as tokens may follow a piece with which a reader is done. -/
theorem Reads.behind {a b : List Char} {ts us : List Token}
    (done : ∀ r : Reader, r.mode = .between → r.run a = .ok (r.after a ts)) (hb : Reads b us) :
    Reads (a ++ b) (ts ++ us) := by
  intro r hr
  obtain ⟨s, hs, finish, next⟩ := hb (r.after a ts) rfl
  rw [after_after] at finish next
  refine ⟨s, ?_, finish, next⟩
  rw [run_append, done r hr]
  exact hs

/-- What reads as tokens may follow a blank. -/
theorem Reads.blank {c : Char} (hc : isBlank c = true) {b : List Char} {us : List Token}
    (hb : Reads b us) : Reads (c :: b) us := by
  have done (r : Reader) (hr : r.mode = .between) : r.run [c] = .ok (r.after [c] []) := by
    rw [run_cons, step, hr, begin, if_pos hc]
    rfl
  exact Reads.behind done hb

/-- What reads as tokens may follow a word, if it starts with what ends the word. -/
theorem Reads.behind_word {w b : List Char} {t : Token} {us : List Token} (hw : Reads w [t])
    (hb : Reads b us) (ends : EndsWord b) : Reads (w ++ b) (t :: us) := by
  cases b with
  | nil =>
    intro r hr
    obtain ⟨s, hs, finish, next⟩ := hw r hr
    obtain ⟨s', hs', finish', next'⟩ := hb (r.after w [t]) rfl
    cases hs'
    rw [after_after] at finish' next'
    refine ⟨s, by rw [List.append_nil, hs], finish.trans finish', fun c hc => ?_⟩
    exact (next c hc).trans (next' c hc)
  | cons c b =>
    intro r hr
    obtain ⟨s, hs, finish, next⟩ := hb (r.after w [t]) rfl
    rw [after_after] at finish next
    refine ⟨s, ?_, finish, next⟩
    rw [hw.run_behind hr (ends c rfl)]
    exact hs

end Reader

/-- A word reads as the token it means. -/
theorem Word.Means.reads {w : List Char} {t : Token} (h : Word.Means w t) (ne : w ≠ [])
    (letters : ∀ c ∈ w, endsWord c = false) : Reader.Reads w [t] :=
  Reader.reads_word ne letters fun _ => Word.token_eq_ok_iff.2 h

open Reader in
/-- **What a text spells is what it reads as.** -/
theorem Spells.reads {text : List Char} {tokens : List Token} (h : Spells text tokens) :
    Reads text tokens := by
  induction h with
  | nil => exact reads_nil
  | blank hc _ ih => exact ih.blank hc
  | word ne letters means ends _ ih =>
    exact (means.reads ne letters).behind_word ih ends
  | @quoted quote body text rest ts hq inside _ ih =>
    have whole : quote :: (body ++ quote :: rest) = (quote :: (body ++ [quote])) ++ rest := by simp
    rw [whole]
    exact Reads.behind (fun r hr => run_quoted hq inside hr) ih
  | @block body rest ts balanced ne _ ih =>
    have whole : '\x7b' :: (body ++ '\x7d' :: rest) = ('\x7b' :: (body ++ ['\x7d'])) ++ rest := by
      simp
    rw [whole]
    exact Reads.behind (fun r hr => run_block balanced ne hr) ih
  | @bracket inner items rest ts b _ ne _ inside ih =>
    have whole : b.opening :: (inner ++ b.closing :: rest) =
        (b.opening :: inner ++ [b.closing]) ++ rest := by simp
    rw [whole, ← trimRead_reverse]
    exact Reads.behind (fun r hr => inside.run_inBracket b ne hr) ih

end Tabletop
