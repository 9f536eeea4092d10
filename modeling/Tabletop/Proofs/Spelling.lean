/-
# Spelling: the canonical text of tokens

Every row of tokens has one text to write it (`Token.row`): its tokens with a space
between two of them, groups in round brackets, lists in square ones, blocks in braces and
strings between double quotes, escaped.

Tokens that can be written are `Proper`: a word goes on to its end and is no chain, a
group is not empty, a block is trimmed and its braces match.  They spell themselves again
(`Token.spells_row`), but for the text that groups and lists keep, which is then the
canonical one (`Token.respell`).  The tokens of every script are proper
(`Spells.proper`), so reading their canonical text gives the same tree again.
-/

import Mathlib
import Tabletop.Proofs.Printed
import Tabletop.Proofs.Recognition
import Tabletop.Proofs.Trimming

namespace Tabletop
namespace Token

/-! ### Canonical text -/

mutual

/-- The canonical text of a token. -/
def written : Token → List Char
  | .word w => w.toList
  | .quoted text => Quoted.encode text.toList
  | .block text => '\x7b' :: text.toList ++ ['\x7d']
  | .group items _ => '(' :: row items ++ [')']
  | .list items _ => '[' :: row items ++ [']']

/-- The canonical text of a row of tokens: a space stands between two of them. -/
def row : List Token → List Char
  | [] => []
  | t :: ts => t.written ++ if ts.isEmpty then [] else ' ' :: row ts

end

mutual

/-- A token whose groups and lists keep the canonical text of their items. -/
def respell : Token → Token
  | .word w => .word w
  | .quoted text => .quoted text
  | .block text => .block text
  | .group items _ => .group (respellAll items) (String.ofList (row items))
  | .list items _ => .list (respellAll items) (String.ofList (row items))

/-- Tokens whose groups and lists keep the canonical text of their items. -/
def respellAll : List Token → List Token
  | [] => []
  | t :: ts => t.respell :: respellAll ts

end

mutual

/-- A token without the text that its groups and lists keep. -/
def bare : Token → Token
  | .word w => .word w
  | .quoted text => .quoted text
  | .block text => .block text
  | .group items _ => .group (bareAll items) ""
  | .list items _ => .list (bareAll items) ""

/-- Tokens without the text that their groups and lists keep. -/
def bareAll : List Token → List Token
  | [] => []
  | t :: ts => t.bare :: bareAll ts

end

/-- A token that can be written: its words end nowhere before their ends and are no
chains, its groups are not empty, and its blocks are not empty, trimmed, and closed only
at their ends. -/
inductive Proper : Token → Prop
  | word {w : String} : w ≠ "" → (∀ c ∈ w.toList, isBlank c = false ∧ isDelimiter c = false) →
      Word.isChain w.toList = false → Proper (.word w)
  | quoted {text : String} : Proper (.quoted text)
  | block {text : String} : text ≠ "" → trimBlanks text.toList = text.toList →
      Balanced 0 text.toList → Proper (.block text)
  | group {items : List Token} {raw : String} : items ≠ [] → (∀ t ∈ items, Proper t) →
      Proper (.group items raw)
  | list {items : List Token} {raw : String} : (∀ t ∈ items, Proper t) →
      Proper (.list items raw)

mutual

/-- A token spelled anew differs in the kept texts alone. -/
theorem bare_respell : ∀ t : Token, t.respell.bare = t.bare
  | .word _ | .quoted _ | .block _ => rfl
  | .group items _ | .list items _ => by
    rw [respell, bare, bare, bareAll_respellAll items]

/-- Tokens spelled anew differ in the kept texts alone. -/
theorem bareAll_respellAll : ∀ ts : List Token, bareAll (respellAll ts) = bareAll ts
  | [] => rfl
  | t :: ts => by rw [respellAll, bareAll, bareAll, bare_respell t, bareAll_respellAll ts]

end

theorem row_cons_cons (t u : Token) (ts : List Token) :
    row (t :: u :: ts) = t.written ++ ' ' :: row (u :: ts) := by
  rw [row, List.isEmpty_cons]
  rfl

theorem row_singleton (t : Token) : row [t] = t.written := by
  rw [row]
  exact List.append_nil _

theorem respellAll_eq_nil_iff {ts : List Token} : respellAll ts = [] ↔ ts = [] := by
  cases ts <;> simp [respellAll]

/-! ### Canonical text spells its tokens -/

/-- A token spells itself anew, before what ends a word. -/
def Spelled (t : Token) : Prop :=
  ∀ ⦃rest ts⦄, EndsWord rest → Spells rest ts → Spells (t.written ++ rest) (t.respell :: ts)

/-- Tokens in a row spell themselves anew. -/
theorem spells_row {ts : List Token} (h : ∀ t ∈ ts, t.Spelled) :
    Spells (row ts) (respellAll ts) := by
  induction ts with
  | nil => exact .nil
  | cons t ts ih =>
    obtain ⟨first, others⟩ := List.forall_mem_cons.1 h
    cases ts with
    | nil =>
      rw [row_singleton]
      simpa [respellAll] using first .nil .nil
    | cons u us =>
      rw [row_cons_cons]
      exact first (.cons rfl _) (.blank rfl (ih others))

/-- A proper token is written without blanks at either end. -/
theorem Proper.solid {t : Token} (h : t.Proper) : Solid t.written ∧ t.written ≠ [] := by
  have enclosed {a b : Char} {text : List Char} (ha : isBlank a = false) (hb : isBlank b = false) :
      Solid (a :: text ++ [b]) ∧ a :: text ++ [b] ≠ [] := by
    refine ⟨⟨fun c hc => ?_, fun c hc => ?_⟩, by simp⟩
    · cases hc
      exact ha
    · rw [List.getLast?_concat] at hc
      cases hc
      exact hb
  cases h with
  | @word w ne letters =>
    have filled : written (.word w) ≠ [] := by rwa [written, ne_eq, String.toList_eq_nil_iff]
    exact ⟨.of_forall fun c hc => (letters c hc).1, filled⟩
  | quoted => exact enclosed (a := '"') (b := '"') rfl rfl
  | block => exact enclosed (a := '\x7b') (b := '\x7d') rfl rfl
  | group => exact enclosed (a := '(') (b := ')') rfl rfl
  | list => exact enclosed (a := '[') (b := ']') rfl rfl

/-- Proper tokens are written without blanks at either end. -/
theorem solid_row {ts : List Token} (h : ∀ t ∈ ts, t.Proper) :
    Solid (row ts) ∧ (ts ≠ [] → row ts ≠ []) := by
  induction ts with
  | nil => exact ⟨.of_forall fun _ hc => absurd hc List.not_mem_nil, fun ne => absurd rfl ne⟩
  | cons t ts ih =>
    obtain ⟨first, others⟩ := List.forall_mem_cons.1 h
    obtain ⟨solid, ne⟩ := first.solid
    cases ts with
    | nil =>
      rw [row_singleton]
      exact ⟨solid, fun _ => ne⟩
    | cons u us =>
      obtain ⟨solid', ne'⟩ := ih others
      rw [row_cons_cons]
      exact ⟨solid.append solid' ne (ne' (List.cons_ne_nil _ _)) ' ', fun _ => by simp [ne]⟩

/-- Proper tokens in a bracket spell the token they make. -/
theorem spells_bracket {items : List Token} (b : Bracket) (proper : ∀ t ∈ items, t.Proper)
    (spelled : ∀ t ∈ items, t.Spelled) (ne : b = .round → items ≠ []) {rest : List Char}
    {ts : List Token} (hr : Spells rest ts) :
    Spells (b.opening :: row items ++ [b.closing] ++ rest)
      (b.token (respellAll items) (String.ofList (row items)) :: ts) := by
  have whole := Spells.bracket b (spells_row spelled)
    (fun hb => mt respellAll_eq_nil_iff.1 (ne hb)) hr
  rw [(solid_row proper).1.trimBlanks_eq] at whole
  simpa using whole

/-- **A proper token spells itself anew.** -/
theorem Proper.spelled {t : Token} (h : t.Proper) : t.Spelled := by
  induction h with
  | @word w ne letters plain =>
    intro rest ts ends hr
    have whole := Spells.word (by rwa [ne_eq, String.toList_eq_nil_iff])
      (fun c hc => by rw [endsWord, (letters c hc).1, (letters c hc).2]; rfl) (.plain plain) ends hr
    rwa [String.ofList_toList] at whole
  | @quoted text =>
    intro rest ts _ hr
    have isQuote : isQuote '"' = true := rfl
    have whole := Spells.quoted isQuote (Quoted.quotes_encode text.toList) hr
    rw [String.ofList_toList] at whole
    simpa [written, respell, Quoted.encode] using whole
  | @block text ne trimmed balanced =>
    intro rest ts _ hr
    have whole := Spells.block balanced
      (by rwa [trimmed, ne_eq, String.toList_eq_nil_iff]) hr
    rw [trimmed, String.ofList_toList] at whole
    simpa [written, respell] using whole
  | group ne proper ih => exact fun _ _ _ hr => spells_bracket .round proper ih (fun _ => ne) hr
  | list proper ih =>
    have square : Bracket.square ≠ .round := by decide
    exact fun _ _ _ hr => spells_bracket .square proper ih (fun hb => absurd hb square) hr

/-! ### Every script is made of proper tokens -/

/-- The parts of a word have no dots, and the characters of the word. -/
theorem mem_parts {w part : List Char} (h : part ∈ Word.parts w) :
    ∀ c ∈ part, c ≠ '.' ∧ c ∈ w := by
  induction w generalizing part with
  | nil =>
    cases List.mem_singleton.1 h
    exact fun c hc => absurd hc List.not_mem_nil
  | cons d w ih =>
    by_cases dot : d = '.'
    · subst dot
      rcases List.mem_cons.1 h with rfl | h
      · exact fun c hc => absurd hc List.not_mem_nil
      · exact fun c hc => ⟨(ih h c hc).1, List.mem_cons_of_mem _ (ih h c hc).2⟩
    · obtain ⟨first, more, parts⟩ := List.exists_cons_of_ne_nil (Word.parts_ne_nil w)
      rw [Word.parts_cons dot parts] at h
      rcases List.mem_cons.1 h with rfl | h
      · refine List.forall_mem_cons.2 ⟨⟨dot, List.mem_cons_self⟩, fun c hc => ?_⟩
        obtain ⟨other, mem⟩ := ih (parts ▸ List.mem_cons_self) c hc
        exact ⟨other, List.mem_cons_of_mem _ mem⟩
      · intro c hc
        obtain ⟨other, mem⟩ := ih (parts ▸ List.mem_cons_of_mem _ h) c hc
        exact ⟨other, List.mem_cons_of_mem _ mem⟩

/-- A row of letters is a proper word unless it is a chain. -/
theorem proper_word {w : List Char} (ne : w ≠ []) (letters : ∀ c ∈ w, endsWord c = false)
    (plain : Word.isChain w = false) : (Token.word (String.ofList w)).Proper := by
  refine .word ?_ ?_ ?_
  · rwa [ne_eq, ← String.toList_eq_nil_iff, String.toList_ofList]
  · rw [String.toList_ofList]
    exact fun c hc => Bool.or_eq_false_iff.1 (letters c hc)
  · rwa [String.toList_ofList]

/-- What a word means is proper. -/
theorem proper_of_means {w : List Char} {t : Token} (ne : w ≠ [])
    (letters : ∀ c ∈ w, endsWord c = false) (h : Word.Means w t) : t.Proper := by
  cases h with
  | plain plain => exact proper_word ne letters plain
  | chain _ filled =>
    refine .group (by simp [Word.parts_ne_nil]) ?_
    rw [List.forall_mem_map]
    intro part mem
    have inside := mem_parts mem
    have letters' := fun c hc => letters c (inside c hc).2
    refine proper_word (fun empty => filled (empty ▸ mem)) letters' ?_
    have noDot : '.' ∉ part := fun dot => (inside _ dot).1 rfl
    simp [Word.isChain, noDot]

end Token

/-- **The tokens that a text spells are proper.** -/
theorem Spells.proper {text : List Char} {ts : List Token} (h : Spells text ts) :
    ∀ t ∈ ts, t.Proper := by
  induction h with
  | nil => exact fun _ ht => absurd ht List.not_mem_nil
  | blank _ _ ih => exact ih
  | word ne letters means _ _ ih =>
    exact List.forall_mem_cons.2 ⟨Token.proper_of_means ne letters means, ih⟩
  | quoted _ _ _ ih => exact List.forall_mem_cons.2 ⟨.quoted, ih⟩
  | block balanced ne _ ih =>
    refine List.forall_mem_cons.2 ⟨.block ?_ ?_ ?_, ih⟩
    · rwa [ne_eq, ← String.toList_eq_nil_iff, String.toList_ofList]
    · rw [String.toList_ofList, trimBlanks_trimBlanks]
    · rw [String.toList_ofList]
      exact balanced.trim
  | bracket b _ ne _ inside ih =>
    refine List.forall_mem_cons.2 ⟨?_, ih⟩
    cases b with
    | round => exact .group (ne rfl) inside
    | square => exact .list inside

namespace Token

/-- **Tokens and their canonical text determine each other.** -/
theorem spelling_roundtrip :
    (∀ ts : List Token, ts ≠ [] → (∀ t ∈ ts, t.Proper) →
      read (String.ofList (row ts)) = .ok (respellAll ts)) ∧
    ∀ (source : String) (ts : List Token), read source = .ok ts →
      ∃ us, read (String.ofList (row ts)) = .ok us ∧ bareAll us = bareAll ts := by
  have anew (ts : List Token) (ne : ts ≠ []) (proper : ∀ t ∈ ts, t.Proper) :
      read (String.ofList (row ts)) = .ok (respellAll ts) := by
    rw [read, String.toList_ofList]
    exact tokens?_eq_ok_iff.2
      ⟨spells_row fun t ht => (proper t ht).spelled, mt respellAll_eq_nil_iff.1 ne⟩
  refine ⟨anew, fun source ts h => ?_⟩
  obtain ⟨spells, ne⟩ := tokens?_eq_ok_iff.1 h
  exact ⟨_, anew ts ne spells.proper, bareAll_respellAll ts⟩

/-- A call with a list and a block in it. -/
def remark : List Token :=
  [.group [.word "say", .list [.quoted "a \"b\"", .word "-2.5"] ""] "", .block "x ']' y"]

/-- The remark reads as it is written, and a chain reads as the group it stands for. -/
theorem spelling_roundtrip_remark :
    read "(say [\"a \\\"b\\\"\" -2.5]) \x7bx ']' y\x7d" = .ok
      [.group [.word "say", .list [.quoted "a \"b\"", .word "-2.5"] "\"a \\\"b\\\"\" -2.5"]
        "say [\"a \\\"b\\\"\" -2.5]", .block "x ']' y"] ∧
    ∃ us, read (String.ofList (row [.group [.word "a", .word "h"] "a.h", .word "+"])) = .ok us ∧
      bareAll us = [.group [.word "a", .word "h"] "", .word "+"] := by
  have quotes : Quotes '\'' false [']'] [']'] := .plain (by decide) (by decide) .nil
  have balanced : Balanced 0 "x ']' y".toList :=
    .plain rfl (by decide) (by decide) (.plain rfl (by decide) (by decide)
      (.quoted rfl quotes (.plain rfl (by decide) (by decide)
        (.plain rfl (by decide) (by decide) .nil))))
  have number : (Token.word "-2.5").Proper :=
    .word (by decide) (forall_mem_of_all (by decide)) (by decide)
  have say : (Token.word "say").Proper :=
    .word (by decide) (forall_mem_of_all (by decide)) (by decide)
  have list : (Token.list [.quoted "a \"b\"", .word "-2.5"] "").Proper :=
    .list (List.forall_mem_cons.2 ⟨.quoted, List.forall_mem_singleton.2 number⟩)
  have proper : ∀ t ∈ remark, t.Proper :=
    List.forall_mem_cons.2
      ⟨.group (List.cons_ne_nil _ _) (List.forall_mem_cons.2
        ⟨say, List.forall_mem_singleton.2 list⟩),
      List.forall_mem_singleton.2 (.block (by decide) (by decide) balanced)⟩
  have spelled := spelling_roundtrip.1 remark (List.cons_ne_nil _ _) proper
  refine ⟨spelled, spelling_roundtrip.2 "a.h +" _ ?_⟩
  cbv

end Token
end Tabletop
