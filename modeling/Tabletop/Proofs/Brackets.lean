/-
# Brackets: those that change nothing, and those that dots stand for

Brackets around a whole script change nothing: where the script spells tokens, the script in
brackets spells their group, whatever stood at its ends (`read_bracketed`), and a lone group
means what is in it.  So any number of brackets around a script that can be read leave its
code, or its fault, as it was (`Registry.enclosure_transparent`).

A chain is short for its words in brackets.  Both read as the same group, but for the text it
keeps (`Chain.reads_dotted`, `Chain.reads_grouped`), so in any script one may stand for the
other (`tokens?_replace`), and what the script means changes only where the text counts
(`Compile.group_textsDiffer`).  Both halves are in `Registry.chain_transparent`.
-/

import Tabletop.Proofs.Literals

namespace Tabletop

open Compile
open Token (TextsDiffer)

/-! ### Brackets around a script -/

/-- A script in round brackets. -/
def bracketed (s : String) : String := "(" ++ s ++ ")"

section

variable {s : String} {ts : List Token}

/-- **A script in brackets is a group** of its tokens. -/
theorem read_bracketed (h : Token.read s = .ok ts) :
    Token.read (bracketed s) = .ok [.group ts (String.ofList (trimBlanks s.toList))] := by
  obtain ⟨spells, ne⟩ := tokens?_eq_ok_iff.1 h
  have bracket := Spells.bracket .round spells (fun _ => ne) .nil
  refine tokens?_eq_ok_iff.2 ⟨?_, List.cons_ne_nil _ _⟩
  simpa [bracketed, Bracket.opening, Bracket.closing, Bracket.token] using bracket

/-- A script that can be read can be read in brackets, however many. -/
theorem exists_read_bracketed (h : Token.read s = .ok ts) (n : Nat) :
    ∃ us, Token.read (bracketed^[n] s) = .ok us := by
  induction n with
  | zero => exact ⟨ts, h⟩
  | succ n ih =>
    obtain ⟨us, hus⟩ := ih
    rw [Function.iterate_succ_apply']
    exact ⟨_, read_bracketed hus⟩

/-- A script in brackets means what it means without them. -/
theorem Registry.meaning_bracketed (v : Registry) (h : Token.read s = .ok ts) :
    v.meaning (bracketed s) = v.meaning s := by
  rw [meaning, meaning, read_bracketed h, h]
  show script v [_] = script v ts
  rw [script, group]
  rfl

theorem Registry.code_compile (v : Registry) (s : String) :
    (v.compile s).map (·.code) = v.meaning s := by
  rw [compile]
  cases v.meaning s <;> rfl

end

/-- **Brackets around a script change nothing**, however many: where the script can be read, it
has the code it has without them, or fails for the same cause. -/
theorem Registry.enclosure_transparent (v : Registry) {s : String} {ts : List Token}
    (h : Token.read s = .ok ts) (n : Nat) :
    (v.compile (bracketed^[n] s)).map (·.code) = (v.compile s).map (·.code) := by
  rw [code_compile, code_compile]
  induction n with
  | zero => rfl
  | succ n ih =>
    obtain ⟨us, hus⟩ := exists_read_bracketed h n
    rw [Function.iterate_succ_apply', v.meaning_bracketed hus, ih]

/-- A lone word that has to be split, with blanks around it, in two brackets. -/
theorem Registry.enclosure_transparent_minus :
    Token.read " -x\u00a0" = .ok [.word "-x"] ∧
      (standard.compile "(( -x\u00a0))").map (·.code) =
        (standard.compile " -x\u00a0").map (·.code) ∧
      standard.meaning " -x\u00a0" = .ok (.call "sub" [.literal (.int 0), .name "x"] [] []) := by
  have read : Token.read " -x\u00a0" = .ok [.word "-x"] := by cbv
  exact ⟨read, standard.enclosure_transparent read 2, by cbv⟩

/-- What cannot be read may be read in brackets. -/
example : Token.read "x) + (2" = .error (.unbalanced ')') ∧
    (Token.read (bracketed "x) + (2")).isOk = true := ⟨by cbv, by cbv⟩

/-! ### Chains -/

namespace Word

/-- Whether a word starts like a number: with a digit, behind a minus if there is one. -/
def startsNumeric : List Char → Bool
  | '-' :: rest => rest.head?.any Char.isDigit
  | word => word.head?.any Char.isDigit

theorem isChain_eq (w : List Char) : isChain w = (w.contains '.' && !startsNumeric w) := by
  match w with
  | [] => rfl
  | c :: w =>
    by_cases sign : c = '-'
    · subst sign
      rfl
    · simp [isChain, startsNumeric, sign]

/-- How a word starts does not depend on what follows a dot. -/
theorem startsNumeric_append {first : List Char} (ne : first ≠ []) (rest : List Char) :
    startsNumeric (first ++ '.' :: rest) = startsNumeric first := by
  match first, ne with
  | ['-'], _ => rfl
  | '-' :: c :: first, _ => rfl
  | c :: first, _ =>
    by_cases sign : c = '-'
    · subst sign
      cases first <;> rfl
    · simp [startsNumeric, sign]

theorem intercalate_cons (c : Char) (w w' : List Char) (ws : List (List Char)) :
    [c].intercalate (w :: w' :: ws) = w ++ c :: [c].intercalate (w' :: ws) := by
  rw [List.intercalate_cons_cons, List.append_assoc, List.singleton_append]

/-- A character of joined words is one of theirs, or stands between two of them. -/
theorem of_mem_intercalate {c d : Char} {ws : List (List Char)} (h : c ∈ [d].intercalate ws) :
    c = d ∨ ∃ w ∈ ws, c ∈ w := by
  induction ws with
  | nil => cases h
  | cons w ws ih =>
    cases ws with
    | nil =>
      rw [List.intercalate_singleton] at h
      exact .inr ⟨w, List.mem_cons_self, h⟩
    | cons w' ws =>
      rw [intercalate_cons, List.mem_append, List.mem_cons] at h
      rcases h with h | rfl | h
      · exact .inr ⟨w, List.mem_cons_self, h⟩
      · exact .inl rfl
      · exact (ih h).imp_right fun ⟨u, hu, hc⟩ => ⟨u, List.mem_cons_of_mem _ hu, hc⟩

/-- Words joined by dots have these words for parts. -/
theorem parts_intercalate {ws : List (List Char)} (ne : ws ≠ []) (h : ∀ w ∈ ws, '.' ∉ w) :
    parts (['.'].intercalate ws) = ws := by
  induction ws with
  | nil => exact absurd rfl ne
  | cons w ws ih =>
    obtain ⟨first, others⟩ := List.forall_mem_cons.1 h
    cases ws with
    | nil => rw [List.intercalate_singleton, parts_of_not_mem first]
    | cons w' ws =>
      rw [intercalate_cons, parts_append first, ih (List.cons_ne_nil _ _) others]

end Word

/-- Words that make a chain: at least two, none of them empty, with a dot or with what ends a
word, and the first does not start like a number. -/
structure Chain (parts : List String) : Prop where
  two : 2 ≤ parts.length
  filled : ∀ part ∈ parts, part ≠ ""
  letters : ∀ part ∈ parts, ∀ c ∈ part.toList, endsWord c = false ∧ c ≠ '.'
  head : ∀ first ∈ parts.head?, Word.startsNumeric first.toList = false

/-- Words with dots between them. -/
def dotted (parts : List String) : String := ".".intercalate parts

/-- Words in round brackets, with blanks between them. -/
def grouped (parts : List String) : String := "(" ++ " ".intercalate parts ++ ")"

namespace Chain

variable {parts : List String}

theorem toList_dotted (parts : List String) :
    (dotted parts).toList = ['.'].intercalate (parts.map String.toList) :=
  String.toList_intercalate

theorem ne_nil (h : Chain parts) : parts ≠ [] := by
  rintro rfl
  cases h.two

/-- The parts of a chain's text are its words. -/
theorem parts_dotted (h : Chain parts) :
    Word.parts (dotted parts).toList = parts.map String.toList := by
  rw [toList_dotted]
  refine Word.parts_intercalate (mt List.map_eq_nil_iff.1 h.ne_nil) ?_
  rw [List.forall_mem_map]
  exact fun part mem dot => (h.letters part mem _ dot).2 rfl

/-- The text of a chain is one. -/
theorem isChain_dotted (h : Chain parts) : Word.isChain (dotted parts).toList = true := by
  obtain ⟨two, filled, -, head⟩ := h
  match parts, two with
  | first :: second :: more, _ =>
    have text : (dotted (first :: second :: more)).toList = first.toList ++
        '.' :: ['.'].intercalate (second.toList :: more.map String.toList) := by
      rw [toList_dotted, List.map_cons, List.map_cons, Word.intercalate_cons]
    have ne : first.toList ≠ [] := mt String.toList_eq_nil_iff.1 (filled _ List.mem_cons_self)
    rw [Word.isChain_eq, text, Word.startsNumeric_append ne, head _ rfl]
    simp

/-- Nothing in a chain ends a word. -/
theorem letters_dotted (h : Chain parts) : ∀ c ∈ (dotted parts).toList, endsWord c = false := by
  intro c hc
  rw [toList_dotted] at hc
  rcases Word.of_mem_intercalate hc with rfl | ⟨w, hw, hc⟩
  · rfl
  · obtain ⟨part, mem, rfl⟩ := List.mem_map.1 hw
    exact (h.letters part mem c hc).1

/-- **A chain reads as the group of its words.** -/
theorem reads_dotted (h : Chain parts) :
    Reader.Reads (dotted parts).toList [.group (parts.map .word) (dotted parts)] := by
  have full : [] ∉ Word.parts (dotted parts).toList := by
    rw [h.parts_dotted, List.mem_map]
    rintro ⟨part, mem, empty⟩
    exact h.filled part mem (String.toList_eq_nil_iff.1 empty)
  have means := Word.Means.chain h.isChain_dotted full
  have items : (Word.parts (dotted parts).toList).map (fun part => .word (String.ofList part)) =
      parts.map Token.word := by
    rw [h.parts_dotted, List.map_map]
    exact List.map_congr_left fun part _ => congrArg _ String.ofList_toList
  rw [items, String.ofList_toList] at means
  exact means.reads (Word.ne_nil_of_isChain h.isChain_dotted) h.letters_dotted

/-- Words with blanks between them read as these words. -/
theorem reads_words (ne : parts ≠ []) (filled : ∀ part ∈ parts, part ≠ "")
    (letters : ∀ part ∈ parts, ∀ c ∈ part.toList, endsWord c = false ∧ c ≠ '.') :
    Reader.Reads ([' '].intercalate (parts.map String.toList)) (parts.map .word) := by
  induction parts with
  | nil => exact absurd rfl ne
  | cons part parts ih =>
    obtain ⟨filled, others⟩ := List.forall_mem_cons.1 filled
    obtain ⟨letters, others'⟩ := List.forall_mem_cons.1 letters
    have first := Reader.reads_plain filled letters
    cases parts with
    | nil => simpa using first
    | cons next parts =>
      have rest := ih (List.cons_ne_nil _ _) others others'
      rw [List.map_cons, List.map_cons, Word.intercalate_cons]
      exact first.append rest (c := ' ') rfl

/-- **The words of a chain in brackets** read as the same group, which keeps another text. -/
theorem reads_grouped (h : Chain parts) :
    ∃ raw, Reader.Reads (grouped parts).toList [.group (parts.map .word) raw] := by
  have inside := reads_words h.ne_nil h.filled h.letters
  have bracket := inside.inBracket .round fun _ => mt List.map_eq_nil_iff.1 h.ne_nil
  have text : (grouped parts).toList =
      '(' :: [' '].intercalate (parts.map String.toList) ++ [')'] := by
    rw [grouped, String.toList_append, String.toList_append, String.toList_intercalate]
    rfl
  rw [text]
  exact ⟨_, bracket⟩

end Chain

/-- What a script reads as, without the texts that its tokens keep, or how it fails to be read,
wherever. -/
def Token.outline (s : String) : Except SyntaxError (List Token) :=
  ((read s).map bareAll).mapError SyntaxError.unplaced

/-- What a script means, or how it fails to mean anything, wherever. -/
def Registry.sense (v : Registry) (s : String) : Compiled :=
  (v.meaning s).mapError SyntaxError.unplaced

/-- A script with a chain and the one with its words in brackets read alike. -/
theorem Chain.read_corresponds {parts : List String} (h : Chain parts) {before after : String}
    {path : List Nat} (stands : ∀ r, Reader.run {} before.toList = .ok r →
      r.mode = .between ∧ r.place = path) (ends : EndsWord after.toList) :
    Corresponds SyntaxError.Same (TextsDiffer path) (Token.read (before ++ dotted parts ++ after))
      (Token.read (before ++ grouped parts ++ after)) := by
  have pieces (a b c : String) : (a ++ b ++ c).toList = a.toList ++ (b.toList ++ c.toList) := by
    simp
  have dots : Reader.Reads (dotted parts).toList
      [Bracket.round.token (parts.map .word) (dotted parts)] := h.reads_dotted
  obtain ⟨raw, brackets⟩ : ∃ raw, Reader.Reads (grouped parts).toList
      [Bracket.round.token (parts.map .word) raw] := h.reads_grouped
  rw [Token.read, Token.read, pieces, pieces]
  exact tokens?_replace dots brackets stands ends

/-- **A chain is short for its words in brackets.**  Wherever a chain stands between tokens as a
whole word, its words in brackets read the same but for the texts kept, and mean the same with
any vocabulary, unless the chain or a bracket around it sits in a literal slot.  Where the
script fails to be read or to mean anything, it does so for the same cause. -/
theorem Registry.chain_transparent {parts : List String} (chain : Chain parts)
    {before after : String} {path : List Nat} (stands : ∀ r, Reader.run {} before.toList = .ok r →
      r.mode = .between ∧ r.place = path) (ends : EndsWord after.toList) :
    Token.outline (before ++ dotted parts ++ after) =
        Token.outline (before ++ grouped parts ++ after) ∧
      ∀ v : Registry,
        (∀ ts, Token.read (before ++ dotted parts ++ after) = .ok ts →
          v.literalAround true ts path = false) →
        v.sense (before ++ dotted parts ++ after) = v.sense (before ++ grouped parts ++ after) := by
  have alike := chain.read_corresponds stands ends
  simp only [Token.outline, Registry.sense, Registry.meaning]
  generalize Token.read (before ++ dotted parts ++ after) = dots at alike ⊢
  generalize Token.read (before ++ grouped parts ++ after) = brackets at alike ⊢
  cases alike with
  | error same => exact ⟨congrArg Except.error same, fun _ _ => congrArg Except.error same⟩
  | ok differ =>
    refine ⟨congrArg Except.ok differ.bareAll_eq, fun v code => ?_⟩
    have means : script v _ = script v _ := (group_textsDiffer differ).1 (code _ rfl) true
    exact congrArg (Except.mapError SyntaxError.unplaced) means

/-- A sum written as a chain of a name, a keyword and a number, inside a list in a group. -/
theorem Registry.chain_transparent_sum :
    Chain ["x", "+", "2"] ∧ EndsWord " y])".toList ∧
      (∀ r, Reader.run {} "not (3 in [".toList = .ok r → r.mode = .between ∧ r.place = [1, 2, 0]) ∧
      (∃ ts, Token.read "not (3 in [x.+.2 y])" = .ok ts ∧
        standard.literalAround true ts [1, 2, 0] = false) ∧
      Token.outline "not (3 in [x.+.2 y])" = Token.outline "not (3 in [(x + 2) y])" ∧
      standard.sense "not (3 in [x.+.2 y])" = standard.sense "not (3 in [(x + 2) y])" := by
  have chain : Chain ["x", "+", "2"] := {
    two := by decide
    filled := by decide
    letters := List.forall_mem_cons.2 ⟨forall_mem_of_all (by decide), List.forall_mem_cons.2
      ⟨forall_mem_of_all (by decide), List.forall_mem_singleton.2 (forall_mem_of_all (by decide))⟩⟩
    head := by decide }
  have ends : EndsWord " y])".toList := .cons rfl _
  have stands : ∀ r, Reader.run {} "not (3 in [".toList = .ok r →
      r.mode = .between ∧ r.place = [1, 2, 0] := by
    intro r h
    cases h
    exact ⟨rfl, rfl⟩
  have whole : Token.read "not (3 in [x.+.2 y])" = .ok [.word "not", .group [.word "3",
      .word "in", .list [.group [.word "x", .word "+", .word "2"] "x.+.2", .word "y"] "x.+.2 y"]
      "3 in [x.+.2 y]"] := by cbv
  have code : ∀ ts, Token.read "not (3 in [x.+.2 y])" = .ok ts →
      standard.literalAround true ts [1, 2, 0] = false := by
    intro ts h
    cases whole.symm.trans h
    rfl
  obtain ⟨same, means⟩ := chain_transparent chain stands ends
  exact ⟨chain, ends, stands, ⟨_, whole, code _ whole⟩, same, means standard code⟩

/-- In a literal slot it is the text that counts. -/
example : Registry.standard.sense "var a.b" = .ok (.call "stored" [.literal (.str "a.b")] [] []) ∧
    Registry.standard.sense "var (a b)" = .ok (.call "stored" [.literal (.str "a b")] [] []) :=
  ⟨by cbv, by cbv⟩

end Tabletop
