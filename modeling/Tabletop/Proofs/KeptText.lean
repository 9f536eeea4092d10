/-
# Kept text: a token stands for what it keeps

A group and a list keep the text they were written with, so that a literal slot can pass it
on to be read later: behind brackets what stood between them, trimmed, behind a chain the
chain.  A token is found by its place, its index in the row followed by its place among the
tokens inside that one (`Token.at?`).

Wherever a token with others inside stands in a script, a reader comes to it between tokens,
and what it meets there is either a bracket around the text that spells them, or a chain
(`Inscribed`, `Spells.inscribed`).  The text it keeps therefore reads as the tokens between
the brackets, or as the chain, and as a script it means what the tokens mean
(`Token.text_exact`).
-/

import Mathlib
import Tabletop.Proofs.Recognition
import Tabletop.Proofs.Trimming
import Tabletop.Script

namespace Tabletop

/-! ### Places -/

namespace Token

/-- The tokens inside a token. -/
def items : Token → List Token
  | .group items _ | .list items _ => items
  | _ => []

/-- The token at a place: at an index of the row, or at a place among those inside that one. -/
def at? (ts : List Token) : List Nat → Option Token
  | [] => none
  | [i] => ts[i]?
  | i :: j :: path => (ts[i]?).bind fun t => at? t.items (j :: path)

theorem at?_nil (path : List Nat) : at? [] path = none := by
  match path with
  | [] | [_] => rfl
  | _ :: _ :: _ => rfl

theorem at?_cons_succ (t : Token) (ts : List Token) (i : Nat) (path : List Nat) :
    at? (t :: ts) ((i + 1) :: path) = at? ts (i :: path) := by
  cases path <;> rfl

theorem at?_cons_zero (t : Token) (ts : List Token) (i : Nat) (path : List Nat) :
    at? (t :: ts) (0 :: i :: path) = at? t.items (i :: path) := rfl

variable {t u : Token} {ts : List Token} {path : List Nat}

/-- Where the first token has nothing inside, neither has the token found there. -/
theorem items_of_flat (flat : u.items = []) (h : at? (u :: ts) (0 :: path) = some t) :
    t.items = [] := by
  cases path with
  | nil =>
    cases h
    exact flat
  | cons i path =>
    rw [at?_cons_zero, flat, at?_nil] at h
    cases h

/-- Among words no token has others inside. -/
theorem items_of_words {ws : List (List Char)} {i : Nat}
    (h : at? (ws.map fun w => .word (String.ofList w)) (i :: path) = some t) : t.items = [] := by
  induction ws generalizing i with
  | nil =>
    rw [List.map_nil, at?_nil] at h
    cases h
  | cons w ws ih =>
    rw [List.map_cons] at h
    cases i with
    | zero => exact items_of_flat rfl h
    | succ i => exact ih (at?_cons_succ .. ▸ h)

/-- A word that has tokens inside is a chain, and these have none. -/
theorem items_of_means {w : List Char} (h : Word.Means w u)
    (ht : at? (u :: ts) (0 :: path) = some t) (ne : t.items ≠ []) :
    t = u ∧ path = [] ∧ Word.isChain w = true := by
  cases h with
  | plain => exact absurd (items_of_flat rfl ht) ne
  | chain chained =>
    cases path with
    | nil =>
      cases ht
      exact ⟨rfl, rfl, chained⟩
    | cons i path => exact absurd (items_of_words ht) ne

/-- The two ways to write a token that has others inside. -/
inductive Form
  | brackets
  | chain

/-- What the text of a token reads as: the tokens inside, if it was written in brackets, or a
chain itself. -/
def Form.reading : Form → Token → List Token
  | .brackets, t => t.items
  | .chain, t => [t]

end Token

namespace Reader

/-- Behind a text a reader stands between tokens, and comes next to the token at a place. -/
def Leads (r : Reader) (text : List Char) (path : List Nat) : Prop :=
  ∃ s, r.run text = .ok s ∧ s.mode = .between ∧ s.place = path

/-- The place in the script of a token that has a place among those that follow. -/
def ahead (r : Reader) (i : Nat) (path : List Nat) : List Nat :=
  places r.opened ++ (r.level.tokens.length + i) :: path

theorem ahead_after (r : Reader) (a : List Char) (t : Token) (i : Nat) (path : List Nat) :
    (r.after a [t]).ahead i path = r.ahead (i + 1) path := by
  have count : (r.after a [t]).level.tokens.length + i = r.level.tokens.length + (i + 1) := by
    simp only [after, List.reverse_singleton, List.singleton_append, List.length_cons]
    omega
  rw [ahead, count]
  rfl

theorem ahead_openBracket (r : Reader) (b : Bracket) (i : Nat) (path : List Nat) :
    (r.openBracket b).ahead i path = r.ahead 0 (i :: path) := by
  simp [ahead, places, openBracket]

theorem run_opening {r : Reader} (hr : r.mode = .between) (b : Bracket) :
    r.run [b.opening] = .ok (r.openBracket b) := by
  rw [run_cons, step, hr]
  cases b <;> rfl

end Reader

open Reader Token

/-! ### How a token is written -/

/-- Of a text that a reader goes on with, the token at a place is written in a form: in a
bracket that opens there, around what spells the tokens inside, or as a whole word that is a
chain. -/
inductive Inscribed (r : Reader) : Form → List Char → List Nat → Token → Prop
  | brackets {before inner after items path} (b : Bracket) :
      r.Leads (before ++ [b.opening]) (path ++ [0]) → Spells inner items →
      Inscribed r .brackets (before ++ b.opening :: (inner ++ b.closing :: after)) path
        (b.token items (String.ofList (trimBlanks inner)))
  | chain {before word after t path} :
      r.Leads before path → (∀ c ∈ word, endsWord c = false) → Word.isChain word = true →
      Word.Means word t → EndsWord after →
      Inscribed r .chain (before ++ (word ++ after)) path t

namespace Inscribed

variable {r s : Reader} {form : Form} {text a : List Char} {path : List Nat} {t : Token}

/-- What is written in a text is written behind a piece that leads a reader to the text.  A
piece that is a word need not do so before another word. -/
theorem behind (h : Inscribed s form text path t)
    (lead : ∀ b rest, text = b ++ rest → (b = [] → ¬EndsWord rest) → r.run (a ++ b) = s.run b) :
    Inscribed r form (a ++ text) path t := by
  cases h with
  | @brackets before inner after items _ b leads spells =>
    have split : before ++ b.opening :: (inner ++ b.closing :: after) =
        (before ++ [b.opening]) ++ (inner ++ b.closing :: after) := by simp
    obtain ⟨s', run, here⟩ := leads
    have run' := lead _ _ split fun none => absurd none (by simp)
    rw [← List.append_assoc]
    refine .brackets b ⟨s', ?_, here⟩ spells
    rw [List.append_assoc, run', run]
  | @chain before word after _ _ leads letters chained means ends =>
    obtain ⟨s', run, here⟩ := leads
    have run' := lead before (word ++ after) rfl fun _ follows => by
      obtain ⟨c, w, rfl⟩ := List.exists_cons_of_ne_nil (Word.ne_nil_of_isChain chained)
      have ends := follows c rfl
      rw [letters c List.mem_cons_self] at ends
      cases ends
    rw [← List.append_assoc]
    exact .chain ⟨s', run'.trans run, here⟩ letters chained means ends

/-- A piece with which a reader is done leads it on. -/
theorem behind_done (h : Inscribed s form text path t) (done : r.run a = .ok s) :
    Inscribed r form (a ++ text) path t :=
  h.behind fun b _ _ _ => by
    rw [run_append, done]
    rfl

/-- A word leads a reader to what ends it. -/
theorem behind_word {ts : List Token} (h : Inscribed (r.after a ts) form text path t)
    (reads : Reads a ts) (hr : r.mode = .between) (ends : EndsWord text) :
    Inscribed r form (a ++ text) path t := by
  refine h.behind fun b rest split follows => ?_
  rw [split] at ends
  cases b with
  | nil => exact absurd ends (follows rfl)
  | cons c b => exact reads.run_behind hr (ends c rfl) b

/-- What is written in a text is written in a longer one, if what is added ends a word. -/
theorem append (h : Inscribed r form text path t) {rest : List Char} (ends : EndsWord rest) :
    Inscribed r form (text ++ rest) path t := by
  cases h with
  | brackets b leads spells => simpa using Inscribed.brackets b leads spells
  | @chain before word after _ _ leads letters chained means follows =>
    have ends' : EndsWord (after ++ rest) := by
      cases after with
      | nil => exact ends
      | cons c after => exact .cons (follows c rfl) _
    simpa using Inscribed.chain leads letters chained means ends'

/-- **The text of a token reads as it was written.** -/
theorem read_text (h : Inscribed r form text path t) (ne : t.items ≠ []) :
    Token.read t.text = .ok (form.reading t) := by
  cases h with
  | @brackets before inner after items _ b _ spells =>
    have kept : (b.token items (String.ofList (trimBlanks inner))).text =
        String.ofList (trimBlanks inner) := by cases b <;> rfl
    have inside : (b.token items (String.ofList (trimBlanks inner))).items = items := by
      cases b <;> rfl
    rw [inside] at ne
    rw [kept, Token.read, String.toList_ofList, Form.reading, inside]
    exact tokens?_eq_ok_iff.2 ⟨spells.trim, ne⟩
  | @chain before word _ _ _ _ letters chained means =>
    have whole := (means.reads (Word.ne_nil_of_isChain chained) letters).tokens?_eq
      (List.cons_ne_nil _ _)
    cases means with
    | plain => exact absurd rfl ne
    | chain =>
      rw [Token.read, Token.text, String.toList_ofList]
      exact whole

/-- The text of a token means what the tokens inside mean. -/
theorem meaning_text (h : Inscribed r form text path t) (ne : t.items ≠ []) (v : Registry) :
    v.meaning t.text = Compile.script v t.items := by
  rw [Registry.meaning, h.read_text ne]
  cases h with
  | brackets => rfl
  | chain _ _ _ means =>
    cases means with
    | plain => exact absurd rfl ne
    | chain =>
      show Compile.script v [_] = _
      rw [Compile.script, Compile.group]
      rfl

end Inscribed

/-- **A token that has others inside is written where it stands.** -/
theorem Spells.inscribed {text : List Char} {ts : List Token} (h : Spells text ts) {r : Reader}
    (hr : r.mode = .between) {i : Nat} {path : List Nat} {t : Token}
    (ht : at? ts (i :: path) = some t) (ne : t.items ≠ []) :
    ∃ form, Inscribed r form text (r.ahead i path) t := by
  induction h generalizing r i path with
  | nil =>
    rw [at?_nil] at ht
    cases ht
  | @blank c rest ts hc _ ih =>
    have done : r.run [c] = .ok (r.pass c .between) := by
      rw [run_cons, step, hr, begin, if_pos hc]
      rfl
    obtain ⟨form, written⟩ := ih (r := r.pass c .between) rfl ht
    exact ⟨form, written.behind_done done⟩
  | @word w u rest ts filled letters means ends _ ih =>
    cases i with
    | zero =>
      obtain ⟨rfl, rfl, chained⟩ := items_of_means means ht ne
      have written : Inscribed r .chain ([] ++ (w ++ rest)) (r.ahead 0 []) t :=
        .chain ⟨r, rfl, hr, rfl⟩ letters chained means ends
      exact ⟨.chain, written⟩
    | succ i =>
      obtain ⟨form, written⟩ := ih (r := r.after w [u]) rfl (at?_cons_succ .. ▸ ht)
      rw [ahead_after] at written
      exact ⟨form, written.behind_word (means.reads filled letters) hr ends⟩
  | @quoted quote body text rest ts hq inside _ ih =>
    cases i with
    | zero => exact absurd (items_of_flat rfl ht) ne
    | succ i =>
      obtain ⟨form, written⟩ := ih (r := r.after _ [.quoted (String.ofList text)]) rfl
        (at?_cons_succ .. ▸ ht)
      rw [ahead_after] at written
      exact ⟨form, by simpa using written.behind_done (run_quoted hq inside hr)⟩
  | @block body rest ts balanced filled _ ih =>
    cases i with
    | zero => exact absurd (items_of_flat rfl ht) ne
    | succ i =>
      obtain ⟨form, written⟩ := ih (r := r.after _ [.block (String.ofList (trimBlanks body))]) rfl
        (at?_cons_succ .. ▸ ht)
      rw [ahead_after] at written
      exact ⟨form, by simpa using written.behind_done (run_block balanced filled hr)⟩
  | @bracket inner items rest ts b spells filled _ inside ih =>
    cases i with
    | succ i =>
      obtain ⟨form, written⟩ := ih
        (r := r.after _ [b.token items (String.ofList (trimBlanks inner))]) rfl
        (at?_cons_succ .. ▸ ht)
      have done := spells.reads.run_inBracket b filled hr
      rw [ahead_after] at written
      rw [trimRead_reverse] at done
      exact ⟨form, by simpa using written.behind_done done⟩
    | zero =>
      cases path with
      | nil =>
        -- the token sought is the bracket itself, which opens at once
        cases ht
        have leads : r.Leads ([] ++ [b.opening]) (r.ahead 0 [] ++ [0]) := by
          refine ⟨_, run_opening hr b, rfl, ?_⟩
          simp [place, ahead, places, openBracket]
        exact ⟨.brackets, .brackets b leads spells⟩
      | cons j path =>
        have kept : (b.token items (String.ofList (trimBlanks inner))).items = items := by
          cases b <;> rfl
        rw [at?_cons_zero, kept] at ht
        obtain ⟨form, written⟩ := inside (r := r.openBracket b) rfl ht
        have closes : EndsWord (b.closing :: rest) := .cons (by cases b <;> rfl) rest
        rw [ahead_openBracket] at written
        exact ⟨form, (written.append closes).behind_done (run_opening hr b)⟩

/-- **A token's text stands for the token.**  Wherever in a script a token has others inside,
it is written in brackets around them or as a chain.  In brackets the text it keeps reads as
the tokens inside, and the text of a chain reads as the chain.  Either way the text is a
script that means what the tokens inside mean. -/
theorem Token.text_exact {source : String} {ts : List Token} (h : read source = .ok ts)
    {path : List Nat} {t : Token} (ht : at? ts path = some t) (ne : t.items ≠ []) :
    (∃ form, Inscribed {} form source.toList path t) ∧
    (∀ form, Inscribed {} form source.toList path t → read t.text = .ok (form.reading t)) ∧
    ∀ v : Registry, v.meaning t.text = Compile.script v t.items := by
  have written : ∃ form, Inscribed {} form source.toList path t := by
    cases path with
    | nil => cases ht
    | cons i path =>
      have start : ahead {} i path = i :: path := by simp [ahead, places]
      rw [← start]
      exact (tokens?_eq_ok_iff.1 h).1.inscribed rfl ht ne
  obtain ⟨form, there⟩ := written
  exact ⟨⟨form, there⟩, fun _ there => there.read_text ne, there.meaning_text ne⟩

/-- A list with a chain in it, inside a group that ends with a string; the blanks are
ideographic and no-break spaces. -/
def roster : String := "count (\u3000[a.b\u00a0\"x)\" ] in 'y ')"

/-- The list of the roster, as it is read and as it is read again from what it keeps. -/
theorem Token.text_exact_roster :
    let t : Token := .list [.group [.word "a", .word "b"] "a.b", .quoted "x)"] "a.b\u00a0\"x)\""
    (∃ ts, read roster = .ok ts ∧ at? ts [1, 0] = some t) ∧
      ∃ form, Inscribed {} form roster.toList [1, 0] t ∧
        read "a.b\u00a0\"x)\"" = .ok (form.reading t) := by
  intro t
  have whole : read roster = .ok [.word "count",
      .group [t, .word "in", .quoted "y "] "[a.b\u00a0\"x)\" ] in 'y '"] := by cbv
  have there : at? [.word "count", .group [t, .word "in", .quoted "y "]
      "[a.b\u00a0\"x)\" ] in 'y '"] [1, 0] = some t := rfl
  obtain ⟨⟨form, written⟩, reads, -⟩ := text_exact whole there (List.cons_ne_nil _ _)
  exact ⟨⟨_, whole, there⟩, form, written, reads form written⟩

end Tabletop
