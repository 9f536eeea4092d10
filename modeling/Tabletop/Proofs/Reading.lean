/-
# Reading: what a text reads as between other texts

What has been read of a script does not tell what a piece of text in it reads as,
except that a word goes on until something ends it.  So a piece of text reads as
tokens (`Reader.Reads`) if, wherever it stands between tokens, a reader that is done
with it and meets what ends a word, or the end of the script, goes on as from behind
those tokens (`Reader.after`).

Pieces that read as tokens are put together: one after another with a blank between
(`Reads.append`), or in a bracket (`Reads.inBracket`).  What reads as tokens is a
script of these tokens (`Reads.tokens?_eq`).

Where a token stands in a script is told by a path: at each level of brackets, how many
tokens stand before (`Reader.place`).
-/

import Tabletop.Script.Reader

namespace Tabletop

@[simp]
theorem byteLength_nil : byteLength [] = 0 := rfl

@[simp]
theorem byteLength_cons (c : Char) (text : List Char) :
    byteLength (c :: text) = c.utf8Size + byteLength text := rfl

@[simp]
theorem byteLength_append (a b : List Char) : byteLength (a ++ b) = byteLength a + byteLength b := by
  induction a with
  | nil => exact (Nat.zero_add _).symm
  | cons c a ih => exact (congrArg (c.utf8Size + ·) ih).trans (Nat.add_assoc ..).symm

/-- A character that ends a word. -/
def endsWord (c : Char) : Bool := isBlank c || isDelimiter c

theorem Integer.isDigit_of_mem_digits {n : Nat} {c : Char} (h : c ∈ (digits n).toList) :
    c.isDigit = true := by
  rw [digits, String.toList_ofList] at h
  exact Nat.isDigit_of_mem_toDigits (by decide) (by decide) h

namespace Word

theorem parts_cons {c : Char} (hc : c ≠ '.') {word part : List Char} {more : List (List Char)}
    (h : parts word = part :: more) : parts (c :: word) = (c :: part) :: more := by
  rw [parts, h]
  exact hc

/-- The part before the first dot. -/
theorem parts_append {first : List Char} (h : '.' ∉ first) (rest : List Char) :
    parts (first ++ '.' :: rest) = first :: parts rest := by
  induction first with
  | nil => rfl
  | cons c first ih =>
    rw [List.mem_cons, not_or] at h
    exact parts_cons (Ne.symm h.1) (ih h.2)

theorem parts_of_not_mem {word : List Char} (h : '.' ∉ word) : parts word = [word] := by
  induction word with
  | nil => rfl
  | cons c word ih =>
    rw [List.mem_cons, not_or] at h
    exact parts_cons (Ne.symm h.1) (ih h.2)

/-- A word without dots is one. -/
theorem token_of_not_mem {word : List Char} (h : '.' ∉ word) (byte : Nat) :
    token byte word = .ok (.word (String.ofList word)) := by
  have plain : isChain word = false := by simp [isChain, h]
  rw [token, plain]
  rfl

/-- Two words with a dot between them are a chain, unless the first starts like a number. -/
theorem token_pair {first second : List Char} (ne : first ≠ []) (ne' : second ≠ [])
    (h : '.' ∉ first) (h' : '.' ∉ second)
    (head : ∀ c ∈ first.head?, c.isDigit = false ∧ c ≠ '-') (byte : Nat) :
    token byte (first ++ '.' :: second) = .ok (.group
      [.word (String.ofList first), .word (String.ofList second)]
      (String.ofList (first ++ '.' :: second))) := by
  obtain ⟨c, rest, rfl⟩ := List.exists_cons_of_ne_nil ne
  obtain ⟨digit, sign⟩ := head c rfl
  have chained : isChain (c :: rest ++ '.' :: second) = true := by
    simp [isChain, sign, digit]
  have filled : (c :: rest).isEmpty = false ∧ second.isEmpty = false :=
    ⟨rfl, by rwa [List.isEmpty_eq_false_iff]⟩
  rw [token, chained, parts_append h, parts_of_not_mem h']
  simp only [chain, filled, Bool.false_eq_true, if_false]
  rfl

end Word

namespace Reader

/-- Where a reader stands behind a text that reads as tokens. -/
def after (r : Reader) (text : List Char) (tokens : List Token) : Reader where
  position := r.position + byteLength text
  mode := .between
  level := ⟨tokens.reverse ++ r.level.tokens, text.reverse ++ r.level.text⟩
  opened := r.opened

theorem after_after (r : Reader) (a b : List Char) (ts us : List Token) :
    (r.after a ts).after b us = r.after (a ++ b) (ts ++ us) := by
  simp [after, Nat.add_assoc]

/-- The place of the innermost of some open brackets: from the outside in, how many tokens
stand before each of them. -/
def places (opened : List Opened) : List Nat :=
  (opened.map (·.outside.tokens.length)).reverse

/-- The place of the next token. -/
def place (r : Reader) : List Nat := places r.opened ++ [r.level.tokens.length]

/-- A text reads as tokens, wherever it stands between tokens and whatever ends it. -/
def Reads (text : List Char) (tokens : List Token) : Prop :=
  ∀ r : Reader, r.mode = .between → ∃ s, r.run text = .ok s ∧
    s.finish = (r.after text tokens).closeAll ∧
    ∀ c, endsWord c = true → s.step c = (r.after text tokens).begin c

theorem run_cons (r : Reader) (c : Char) (text : List Char) :
    r.run (c :: text) = (r.step c).bind fun r => r.run text := rfl

/-- What ends a word is read behind a text as it is behind its tokens. -/
theorem Reads.run_behind {a : List Char} {ts : List Token} (h : Reads a ts) {r : Reader}
    (hr : r.mode = .between) {c : Char} (hc : endsWord c = true) (b : List Char) :
    r.run (a ++ c :: b) = (r.after a ts).run (c :: b) := by
  obtain ⟨s, hs, -, next⟩ := h r hr
  rw [run_append, hs]
  show (s.step c).bind _ = ((r.after a ts).begin c).bind _
  rw [next c hc]

/-- A reader that stands where a text reads as tokens is done with it. -/
theorem Reads.of_run {text : List Char} {tokens : List Token}
    (h : ∀ r : Reader, r.mode = .between → r.run text = .ok (r.after text tokens)) :
    Reads text tokens :=
  fun r hr => ⟨_, h r hr, rfl, fun _ _ => rfl⟩

/-! ### Words -/

/-- Inside a word a reader goes on to its end. -/
theorem run_word {start : Nat} {text : List Char} (h : ∀ c ∈ text, endsWord c = false)
    (r : Reader) (read : List Char) (hr : r.mode = .word start read) :
    r.run text = .ok
      { r with
        position := r.position + byteLength text
        mode := .word start (text.reverse ++ read)
        level := { r.level with text := text.reverse ++ r.level.text } } := by
  induction text generalizing r read with
  | nil =>
    rw [List.reverse_nil, List.nil_append, List.nil_append, ← hr]
    rfl
  | cons c text ih =>
    obtain ⟨hc, htext⟩ := List.forall_mem_cons.1 h
    have step : r.step c = .ok (r.pass c (.word start (c :: read))) := by
      rw [Reader.step, hr]
      exact if_neg (by rw [← endsWord, hc]; decide)
    rw [run_cons, step]
    refine (ih htext (r.pass c (.word start (c :: read))) _ rfl).trans ?_
    simp [pass, Nat.add_assoc]

/-- Between tokens, what does not end a word begins one. -/
theorem begin_word (r : Reader) {c : Char} (h : endsWord c = false) :
    r.begin c = .ok (r.pass c (.word r.position [c])) := by
  simp only [endsWord, isDelimiter, Bool.or_eq_false_iff, beq_eq_false_iff_ne] at h
  obtain ⟨blank, ⟨⟨⟨⟨⟨⟨h₁, h₂⟩, h₃⟩, h₄⟩, h₅⟩, h₆⟩, h₇⟩, h₈⟩ := h
  simp [begin, blank, isClosing, Bracket.ofOpening?, isQuote, h₁, h₂, h₃, h₄, h₅, h₆, h₇, h₈]

section

variable {s : Reader} {start : Nat} {read : List Char} {token : Token}

/-- At the end of a script a word becomes a token. -/
theorem finish_word (hs : s.mode = .word start read)
    (ht : Word.token start read.reverse = .ok token) : s.finish = (s.push token).closeAll := by
  rw [finish, hs]
  simp only [endWord, ht]
  rfl

/-- What ends a word makes it a token, and is read between tokens. -/
theorem step_word (hs : s.mode = .word start read)
    (ht : Word.token start read.reverse = .ok token) {c : Char} (hc : endsWord c = true) :
    s.step c = (s.push token).begin c := by
  rw [step, hs]
  refine (if_pos hc).trans ?_
  simp only [endWord, ht]
  rfl

end

/-- **A word reads as its token.** -/
theorem reads_word {text : List Char} {token : Token} (ne : text ≠ [])
    (h : ∀ c ∈ text, endsWord c = false) (ht : ∀ byte, Word.token byte text = .ok token) :
    Reads text [token] := by
  intro r hr
  obtain ⟨c, rest, rfl⟩ := List.exists_cons_of_ne_nil ne
  obtain ⟨hc, hrest⟩ := List.forall_mem_cons.1 h
  have first : r.step c = .ok (r.pass c (.word r.position [c])) := by
    rw [step, hr]
    exact r.begin_word hc
  have others := run_word hrest (r.pass c (.word r.position [c])) [c] rfl
  have run : r.run (c :: rest) = (r.pass c (.word r.position [c])).run rest := by
    rw [run_cons, first]
    rfl
  have ht : Word.token r.position (rest.reverse ++ [c]).reverse = .ok token := by
    rw [List.reverse_append, List.reverse_reverse]
    exact ht _
  refine ⟨_, run.trans others, (finish_word rfl ht).trans (congrArg closeAll ?_),
    fun d hd => (step_word rfl ht hd).trans (congrArg (begin · d) ?_)⟩
  all_goals simp [push, pass, after, Nat.add_assoc]

/-- A word without dots reads as itself. -/
theorem reads_plain {w : String} (ne : w ≠ "")
    (h : ∀ c ∈ w.toList, endsWord c = false ∧ c ≠ '.') : Reads w.toList [.word w] := by
  refine reads_word (by rwa [ne_eq, String.toList_eq_nil_iff]) (fun c hc => (h c hc).1) fun byte => ?_
  rw [Word.token_of_not_mem (fun dot => (h _ dot).2 rfl), String.ofList_toList]

/-- Two words with a dot between them read as a chain, unless the first starts like a
number. -/
theorem reads_pair {v w : String} (ne : v ≠ "") (ne' : w ≠ "")
    (h : ∀ c ∈ v.toList, endsWord c = false ∧ c ≠ '.')
    (h' : ∀ c ∈ w.toList, endsWord c = false ∧ c ≠ '.')
    (head : ∀ c ∈ v.toList.head?, c.isDigit = false ∧ c ≠ '-') :
    Reads (v ++ "." ++ w).toList [.group [.word v, .word w] (v ++ "." ++ w)] := by
  have whole : (v ++ "." ++ w).toList = v.toList ++ '.' :: w.toList := by simp
  have letters : ∀ c ∈ (v ++ "." ++ w).toList, endsWord c = false := by
    rw [whole, List.forall_mem_append, List.forall_mem_cons]
    exact ⟨fun c hc => (h c hc).1, rfl, fun c hc => (h' c hc).1⟩
  refine reads_word (by simp) letters fun byte => ?_
  rw [whole, Word.token_pair (by rwa [ne_eq, String.toList_eq_nil_iff])
    (by rwa [ne_eq, String.toList_eq_nil_iff]) (fun dot => (h _ dot).2 rfl)
    (fun dot => (h' _ dot).2 rfl) head, ← whole]
  simp only [String.ofList_toList]

/-- A digit ends no word. -/
theorem endsWord_of_isDigit {c : Char} (h : c.isDigit = true) : endsWord c = false := by
  have bounds : 48 ≤ c.toNat ∧ c.toNat ≤ 57 := by
    simpa [Char.isDigit, UInt32.le_iff_toNat_le] using h
  have blank : isBlank c = false := by
    simp only [isBlank, Bool.or_eq_false_iff, Bool.and_eq_false_iff, decide_eq_false_iff_not,
      beq_eq_false_iff_ne]
    omega
  have other {d : Char} (hd : d.isDigit = false) : (c == d) = false := by
    rw [beq_eq_false_iff_ne]
    rintro rfl
    rw [h] at hd
    cases hd
  rw [endsWord, blank, isDelimiter, other rfl, other rfl, other rfl, other rfl, other rfl,
    other rfl, other rfl, other rfl]
  rfl

/-- A written integer is made of digits and a sign. -/
theorem mem_write {n : Int} {c : Char} (h : c ∈ (Integer.write n).toList) :
    c.isDigit = true ∨ c = '-' := by
  cases n with
  | ofNat m => exact .inl (Integer.isDigit_of_mem_digits h)
  | negSucc m =>
    rw [Integer.write, String.toList_append, List.mem_append] at h
    rcases h with h | h
    · exact .inr (List.mem_singleton.1 h)
    · exact .inl (Integer.isDigit_of_mem_digits h)

/-- A written integer reads as a word. -/
theorem reads_write (n : Int) : Reads (Integer.write n).toList [.word (Integer.write n)] := by
  refine reads_plain ?_ fun c hc => ?_
  · cases n <;> simp [Integer.write, Integer.digits, ← String.toList_inj, Nat.toDigits_ne_nil]
  · rcases mem_write hc with digit | rfl
    · refine ⟨endsWord_of_isDigit digit, ?_⟩
      rintro rfl
      cases digit
    · exact ⟨rfl, by decide⟩

/-! ### Pieces put together -/

/-- **One piece after another**, with a blank between them. -/
theorem Reads.append {a b : List Char} {ts us : List Token} (ha : Reads a ts) (hb : Reads b us)
    {c : Char} (hc : isBlank c = true) : Reads (a ++ c :: b) (ts ++ us) := by
  intro r hr
  obtain ⟨s, hs, -, step⟩ := ha r hr
  have gap : s.step c = .ok (r.after (a ++ [c]) ts) := by
    rw [step c (by rw [endsWord, hc]; rfl), begin, if_pos hc]
    simp [after, pass, Nat.add_assoc]
  obtain ⟨t, ht, finish, next⟩ := hb (r.after (a ++ [c]) ts) rfl
  rw [after_after, List.append_assoc, List.singleton_append] at finish next
  refine ⟨t, ?_, finish, next⟩
  rw [run_append, hs]
  exact (congrArg (·.bind fun r => r.run b) gap).trans ht

/-- A reader is done with a bracket as soon as it is closed. -/
theorem Reads.run_inBracket {a : List Char} {ts : List Token} (ha : Reads a ts) (b : Bracket)
    (ne : b = .round → ts ≠ []) {r : Reader} (hr : r.mode = .between) :
    r.run (b.opening :: a ++ [b.closing]) = .ok (r.after (b.opening :: a ++ [b.closing])
      [b.token ts (String.ofList (trimRead a.reverse))]) := by
  have opens : r.step b.opening = .ok (r.openBracket b) := by
    rw [step, hr]
    cases b <;> rfl
  obtain ⟨s, hs, -, next⟩ := ha (r.openBracket b) rfl
  have closes : s.step b.closing = ((r.openBracket b).after a ts).closeBracket b.closing := by
    cases b <;> exact next _ rfl
  rw [List.cons_append, run_cons, opens]
  show (r.openBracket b).run (a ++ [b.closing]) = _
  rw [run_append, hs]
  show (s.step b.closing).bind _ = _
  have filled : ¬(b = .round ∧ ts = []) := fun h => ne h.1 h.2
  have sizes : b.opening.utf8Size = 1 ∧ b.closing.utf8Size = 1 := by cases b <;> decide
  rw [closes]
  simp [closeBracket, after, openBracket, filled, sizes, Nat.add_assoc, Except.bind, pure,
    Except.pure]

/-- **Pieces in a bracket** are one token. -/
theorem Reads.inBracket {a : List Char} {ts : List Token} (ha : Reads a ts) (b : Bracket)
    (ne : b = .round → ts ≠ []) :
    Reads (b.opening :: a ++ [b.closing]) [b.token ts (String.ofList (trimRead a.reverse))] :=
  .of_run fun _ hr => ha.run_inBracket b ne hr

/-- **What reads as tokens is a script of them.** -/
theorem Reads.tokens?_eq {text : List Char} {tokens : List Token} (h : Reads text tokens)
    (ne : tokens ≠ []) : tokens? text = .ok tokens := by
  obtain ⟨s, run, finish, -⟩ := h {} rfl
  have all : s.finish = .ok tokens := by
    rw [finish]
    simp [after, closeAll]
  rw [tokens?, run]
  show (s.finish.bind fun ts => if ts.isEmpty then .error .empty else .ok ts) = _
  rw [all]
  exact if_neg (by rwa [List.isEmpty_iff])

end Reader
end Tabletop
