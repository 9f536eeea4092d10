/-
# Trimming

A bracket and a block keep what stands in them without the blanks at either end.  What
holds of a text with a blank at one end more holds of the trimmed text if the blank may
go (`trimBlanks_of`): so the braces of a trimmed text still match (`Balanced.trim`), and
it spells what it did (`Spells.trim`).
-/

import Mathlib.Data.List.Induction
import Tabletop.Proofs.Grammar

namespace Tabletop

/-! ### Trimmed texts -/

/-- No blank stands at either end of a text. -/
structure Solid (text : List Char) : Prop where
  head : ∀ c ∈ text.head?, isBlank c = false
  last : ∀ c ∈ text.getLast?, isBlank c = false

/-- What holds whether or not a blank stands at either end holds of the trimmed text. -/
theorem trimBlanks_of {P : List Char → Prop} {text : List Char}
    (head : ∀ c rest, isBlank c = true → P (c :: rest) → P rest)
    (last : ∀ c rest, isBlank c = true → P (rest ++ [c]) → P rest) (h : P text) :
    P (trimBlanks text) := by
  have front : P (text.dropWhile isBlank) := by
    induction text with
    | nil => exact h
    | cons c text ih =>
      rw [List.dropWhile_cons]
      split
      · next blank => exact ih (head c text blank h)
      · exact h
  rw [trimBlanks]
  generalize text.dropWhile isBlank = rest at front
  induction rest using List.reverseRecOn with
  | nil => exact front
  | append_singleton rest c ih =>
    rw [List.reverse_append, List.reverse_singleton, List.singleton_append, List.dropWhile_cons]
    split
    · next blank => exact ih (last c rest blank front)
    · rwa [List.reverse_cons, List.reverse_reverse]

/-- A text without blanks. -/
theorem Solid.of_forall {text : List Char} (h : ∀ c ∈ text, isBlank c = false) : Solid text :=
  ⟨fun _ hc => h _ (List.mem_of_mem_head? hc), fun _ hc => h _ (List.mem_of_getLast? hc)⟩

/-- There is nothing to trim. -/
theorem Solid.trimBlanks_eq {text : List Char} (h : Solid text) : trimBlanks text = text := by
  have front : text.dropWhile isBlank = text := by
    cases text with
    | nil => rfl
    | cons c text => exact List.dropWhile_cons_of_neg (Bool.eq_false_iff.1 (h.head c rfl))
  rw [trimBlanks, front]
  cases text using List.reverseRecOn with
  | nil => rfl
  | append_singleton rest c =>
    have blank := Bool.eq_false_iff.1 (h.last c List.getLast?_concat)
    rw [List.reverse_append, List.reverse_singleton, List.singleton_append,
      List.dropWhile_cons_of_neg blank, List.reverse_cons, List.reverse_reverse]

/-- A trimmed text has no blank at either end. -/
theorem solid_trimBlanks (text : List Char) : Solid (trimBlanks text) := by
  have first (rest : List Char) : ∀ c ∈ (rest.dropWhile isBlank).head?, isBlank c = false := by
    intro c hc
    have := List.head?_dropWhile_not isBlank rest
    rwa [hc] at this
  constructor
  · rw [← trimRead_reverse]
    exact first _
  · rw [trimBlanks, List.getLast?_reverse]
    exact first _

theorem trimBlanks_trimBlanks (text : List Char) :
    trimBlanks (trimBlanks text) = trimBlanks text :=
  (solid_trimBlanks text).trimBlanks_eq

/-- A blank between two texts leaves their ends as they are. -/
theorem Solid.append {a b : List Char} (ha : Solid a) (hb : Solid b) (ne : a ≠ []) (ne' : b ≠ [])
    (c : Char) : Solid (a ++ c :: b) := by
  obtain ⟨x, a, rfl⟩ := List.exists_cons_of_ne_nil ne
  obtain ⟨y, b, rfl⟩ := List.exists_cons_of_ne_nil ne'
  refine ⟨ha.head, fun d hd => hb.last d ?_⟩
  rw [List.getLast?_append, List.getLast?_cons_cons] at hd
  simpa [List.getLast?_cons] using hd

/-! ### What stays when a blank goes -/

theorem endsWord_of_isBlank {c : Char} (h : isBlank c = true) : endsWord c = true := by
  rw [endsWord, h]
  rfl

/-- A blank is neither a quote nor a brace. -/
theorem plain_of_isBlank {c : Char} (h : isBlank c = true) :
    isQuote c = false ∧ c ≠ '\x7b' ∧ c ≠ '\x7d' := by
  refine ⟨?_, ?_, ?_⟩
  · rw [isQuote, Bool.or_eq_false_iff, beq_eq_false_iff_ne, beq_eq_false_iff_ne]
    constructor
    all_goals
      rintro rfl
      cases h
  all_goals
    rintro rfl
    cases h

/-- A text that goes on behind a piece ends where what goes on ends. -/
theorem ends_behind {a rest : List Char} {c d : Char} (piece : List Char) (other : d ≠ c)
    (h : a ++ [c] = piece ++ d :: rest) :
    ∃ rest', rest = rest' ++ [c] ∧ a = piece ++ d :: rest' := by
  cases rest using List.reverseRecOn with
  | nil => exact absurd (List.append_inj_right' h rfl) (by simpa using Ne.symm other)
  | append_singleton rest' e =>
    rw [← List.cons_append, ← List.append_assoc] at h
    obtain ⟨rfl, last⟩ := List.append_inj' h rfl
    exact ⟨rest', by rw [List.singleton_inj.1 last], rfl⟩

theorem Balanced.of_concat {depth : Nat} {text : List Char} {c : Char} (hc : isBlank c = true)
    (h : Balanced depth (text ++ [c])) : Balanced depth text := by
  obtain ⟨noQuote, noOpening, noClosing⟩ := plain_of_isBlank hc
  generalize whole : text ++ [c] = full at h
  induction h generalizing text with
  | nil => simp at whole
  | plain quote opening closing tail ih =>
    cases text with
    | nil =>
      cases whole
      exact tail
    | cons d text =>
      cases whole
      exact .plain quote opening closing (ih rfl)
  | @quoted depth quote body _ rest isQuote inside _ ih =>
    have other : quote ≠ c := by
      rintro rfl
      rw [isQuote] at noQuote
      cases noQuote
    obtain ⟨rest', rfl, rfl⟩ := ends_behind (quote :: body) other whole
    exact .quoted isQuote inside (ih rfl)
  | opening _ ih =>
    obtain ⟨rest', rfl, rfl⟩ := ends_behind [] (Ne.symm noOpening) whole
    exact .opening (ih rfl)
  | closing _ ih =>
    obtain ⟨rest', rfl, rfl⟩ := ends_behind [] (Ne.symm noClosing) whole
    exact .closing (ih rfl)

theorem Balanced.of_cons {depth : Nat} {text : List Char} {c : Char} (hc : isBlank c = true)
    (h : Balanced depth (c :: text)) : Balanced depth text := by
  obtain ⟨noQuote, noOpening, noClosing⟩ := plain_of_isBlank hc
  cases h with
  | plain _ _ _ rest => exact rest
  | quoted isQuote =>
    rw [isQuote] at noQuote
    cases noQuote
  | opening => exact absurd rfl noOpening
  | closing => exact absurd rfl noClosing

/-- The braces of a trimmed text match if they did before. -/
theorem Balanced.trim {depth : Nat} {text : List Char} (h : Balanced depth text) :
    Balanced depth (trimBlanks text) :=
  trimBlanks_of (fun _ _ => of_cons) (fun _ _ => of_concat) h

theorem Spells.of_cons {text : List Char} {c : Char} {ts : List Token} (hc : isBlank c = true)
    (h : Spells (c :: text) ts) : Spells text ts := by
  have ends := endsWord_of_isBlank hc
  generalize whole : c :: text = full at h
  cases h with
  | nil => cases whole
  | blank _ rest =>
    cases whole
    exact rest
  | @word w _ _ _ ne letters =>
    obtain ⟨d, w, rfl⟩ := List.exists_cons_of_ne_nil ne
    cases whole
    rw [letters c List.mem_cons_self] at ends
    cases ends
  | quoted quote =>
    cases whole
    rw [(plain_of_isBlank hc).1] at quote
    cases quote
  | block =>
    cases whole
    cases hc
  | bracket b =>
    cases whole
    cases b <;> cases hc

theorem Spells.of_concat {text : List Char} {c : Char} {ts : List Token} (hc : isBlank c = true)
    (h : Spells (text ++ [c]) ts) : Spells text ts := by
  have ends := endsWord_of_isBlank hc
  obtain ⟨noQuote, -, noClosing⟩ := plain_of_isBlank hc
  generalize whole : text ++ [c] = full at h
  induction h generalizing text with
  | nil => simp at whole
  | blank blank tail ih =>
    cases text with
    | nil =>
      cases whole
      exact tail
    | cons d text =>
      cases whole
      exact .blank blank (ih rfl)
  | @word w t rest ts ne letters means follows tail ih =>
    cases rest using List.reverseRecOn with
    | nil =>
      have last : c ∈ w := by
        rw [← List.append_nil w, ← whole]
        exact List.mem_concat_self
      rw [letters c last] at ends
      cases ends
    | append_singleton rest d =>
      rw [← List.append_assoc] at whole
      obtain ⟨rfl, last⟩ := List.append_inj' whole rfl
      rw [List.singleton_inj] at last
      subst last
      refine .word ne letters means (fun e he => follows e ?_) (ih rfl)
      cases rest with
      | nil => cases he
      | cons => exact he
  | @quoted quote body _ rest _ isQuote inside _ ih =>
    have other : quote ≠ c := by
      rintro rfl
      rw [isQuote] at noQuote
      cases noQuote
    obtain ⟨rest', rfl, rfl⟩ := ends_behind (quote :: body) other whole
    exact .quoted isQuote inside (ih rfl)
  | @block body rest _ balanced ne _ ih =>
    obtain ⟨rest', rfl, rfl⟩ := ends_behind ('\x7b' :: body) (Ne.symm noClosing) whole
    exact .block balanced ne (ih rfl)
  | @bracket inner items rest _ b inside ne _ _ ih =>
    have other : b.closing ≠ c := by
      rintro rfl
      cases b <;> cases hc
    obtain ⟨rest', rfl, rfl⟩ := ends_behind (b.opening :: inner) other whole
    exact .bracket b inside ne (ih rfl)

/-- **A trimmed text spells what it did before.** -/
theorem Spells.trim {text : List Char} {ts : List Token} (h : Spells text ts) :
    Spells (trimBlanks text) ts :=
  trimBlanks_of (P := (Spells · ts)) (fun _ _ => of_cons) (fun _ _ => of_concat) h

end Tabletop
