/-
# Abreast: reading two scripts that differ in one piece

Where a piece of a script reads as one bracketed token, another piece that reads as the same
token but for the text it keeps may stand in its place.  Behind the two pieces two readers go
on abreast (`Reader.Abreast`): their levels differ in the texts kept at one place and around
it, and in nothing else but the bytes at which pieces began.  Each character keeps them so
(`Reader.Abreast.step`), or stops both with the same fault, and at the end the rows of tokens
differ there only (`Reader.Abreast.finish`).

So the two scripts read alike, whether they can be read or not (`tokens?_replace`).
-/

import Tabletop.Proofs.Spelling

namespace Tabletop

/-! ### Outcomes that correspond -/

/-- Two computations end alike: with related results, or with related faults. -/
inductive Corresponds {ε α β : Type} (E : ε → ε → Prop) (R : α → β → Prop) :
    Except ε α → Except ε β → Prop
  | ok {a b} : R a b → Corresponds E R (.ok a) (.ok b)
  | error {e e'} : E e e' → Corresponds E R (.error e) (.error e')

namespace Corresponds

variable {ε α β γ δ : Type} {E : ε → ε → Prop} {R : α → β → Prop} {S : γ → δ → Prop}

theorem bind {x : Except ε α} {y : Except ε β} {f : α → Except ε γ} {g : β → Except ε δ}
    (h : Corresponds E R x y) (hf : ∀ a b, R a b → Corresponds E S (f a) (g b)) :
    Corresponds E S (x >>= f) (y >>= g) := by
  cases h with
  | ok h => exact hf _ _ h
  | error h => exact .error h

theorem refl (x : Except ε α) : Corresponds Eq Eq x x := by
  cases x <;> constructor <;> rfl

theorem eq {x y : Except ε α} (h : Corresponds Eq Eq x y) : x = y := by
  cases h with
  | ok h => rw [h]
  | error h => rw [h]

end Corresponds

/-- A fault without the byte at which it was found. -/
def SyntaxError.unplaced : SyntaxError → SyntaxError
  | .emptyToken _ => .emptyToken 0
  | e => e

/-- Faults that are the same but for the byte at which they were found. -/
def SyntaxError.Same (e e' : SyntaxError) : Prop := e.unplaced = e'.unplaced

namespace Token

/-- Rows of tokens that differ only in the texts that the token at a place and those around it
keep. -/
inductive TextsDiffer : List Nat → List Token → List Token → Prop
  | here {front back items : List Token} {raw raw' : String} (b : Bracket) :
      TextsDiffer [front.length] (front ++ b.token items raw :: back)
        (front ++ b.token items raw' :: back)
  | inside {front back items items' : List Token} {raw raw' : String} {path : List Nat}
      (b : Bracket) : TextsDiffer path items items' →
      TextsDiffer (front.length :: path) (front ++ b.token items raw :: back)
        (front ++ b.token items' raw' :: back)

variable {path : List Nat} {ts us : List Token}

theorem TextsDiffer.append (h : TextsDiffer path ts us) (vs : List Token) :
    TextsDiffer path (ts ++ vs) (us ++ vs) := by
  cases h with
  | here b => simpa using here b
  | inside b h => simpa using inside b h

theorem TextsDiffer.ne_nil (h : TextsDiffer path ts us) : ts ≠ [] ∧ us ≠ [] := by
  cases h <;> simp

theorem bareAll_append (ts us : List Token) : bareAll (ts ++ us) = bareAll ts ++ bareAll us := by
  induction ts with
  | nil => rfl
  | cons t ts ih => rw [List.cons_append, bareAll, bareAll, ih, List.cons_append]

/-- Rows that differ in kept texts are the same without them. -/
theorem TextsDiffer.bareAll_eq (h : TextsDiffer path ts us) : bareAll ts = bareAll us := by
  induction h with
  | here b => cases b <;> simp [bareAll_append, bareAll, Bracket.token, bare]
  | inside b _ ih => cases b <;> simp [bareAll_append, bareAll, Bracket.token, bare, ih]

end Token

open Token (TextsDiffer)

namespace Reader

/-- Levels in brackets that differ only at a place: on the present level, or on one around it. -/
inductive LevelsDiffer : List Nat → Level → List Opened → Level → List Opened → Prop
  | here {l l' : Level} {opened : List Opened} {path : List Nat} :
      TextsDiffer path l.tokens.reverse l'.tokens.reverse →
      LevelsDiffer (places opened ++ path) l opened l' opened
  | around {l l' inner : Level} {opened opened' : List Opened} {path : List Nat} (b : Bracket)
      (start start' : Nat) : LevelsDiffer path l opened l' opened' →
      LevelsDiffer path inner (⟨b, start, l⟩ :: opened) inner (⟨b, start', l'⟩ :: opened')

/-- Modes that are the same but for the byte at which the piece began. -/
inductive Mode.Alike : Mode → Mode → Prop
  | between : Alike .between .between
  | word {start start' : Nat} {read : List Char} : Alike (.word start read) (.word start' read)
  | quoted {quote : Char} {escaped : Bool} {read : List Char} :
      Alike (.quoted quote escaped read) (.quoted quote escaped read)
  | block {start start' depth : Nat} {quote : Option (Char × Bool)} {read : List Char} :
      Alike (.block start depth quote read) (.block start' depth quote read)

/-- Two readers that read on side by side, their tokens different only at a place. -/
structure Abreast (path : List Nat) (r s : Reader) : Prop where
  mode : r.mode.Alike s.mode
  levels : LevelsDiffer path r.level r.opened s.level s.opened

variable {path : List Nat} {r s : Reader} {l l' : Level} {opened opened' : List Opened}

theorem LevelsDiffer.push (h : LevelsDiffer path l opened l' opened') (t : Token) :
    LevelsDiffer path ⟨t :: l.tokens, l.text⟩ opened ⟨t :: l'.tokens, l'.text⟩ opened' := by
  cases h with
  | here h =>
    refine .here ?_
    rw [List.reverse_cons, List.reverse_cons]
    exact h.append [t]
  | around b start start' h => exact .around b start start' h

theorem LevelsDiffer.read (h : LevelsDiffer path l opened l' opened') (text : List Char) :
    LevelsDiffer path ⟨l.tokens, text ++ l.text⟩ opened ⟨l'.tokens, text ++ l'.text⟩ opened' := by
  cases h with
  | here h => exact .here h
  | around b start start' h => exact .around b start start' h

theorem Abreast.pass (h : Abreast path r s) (c : Char) {m m' : Mode} (hm : m.Alike m') :
    Abreast path (r.pass c m) (s.pass c m') :=
  ⟨hm, h.levels.read [c]⟩

theorem Abreast.push (h : Abreast path r s) (t : Token) : Abreast path (r.push t) (s.push t) :=
  ⟨.between, h.levels.push t⟩

theorem Abreast.openBracket (h : Abreast path r s) (b : Bracket) :
    Abreast path (r.openBracket b) (s.openBracket b) :=
  ⟨.between, .around b r.position s.position h.levels⟩

/-- A level that differs makes a token that differs. -/
theorem LevelsDiffer.close {o : Opened} {text text' : List Char} {raw raw' : String}
    (h : TextsDiffer path l.tokens.reverse l'.tokens.reverse) :
    LevelsDiffer (places (o :: opened) ++ path)
      ⟨o.bracket.token l.tokens.reverse raw :: o.outside.tokens, text⟩ opened
      ⟨o.bracket.token l'.tokens.reverse raw' :: o.outside.tokens, text'⟩ opened := by
  have differ : TextsDiffer (o.outside.tokens.length :: path)
      (o.bracket.token l.tokens.reverse raw :: o.outside.tokens).reverse
      (o.bracket.token l'.tokens.reverse raw' :: o.outside.tokens).reverse := by
    have inner : TextsDiffer (o.outside.tokens.reverse.length :: path)
        (o.outside.tokens.reverse ++ [o.bracket.token l.tokens.reverse raw])
        (o.outside.tokens.reverse ++ [o.bracket.token l'.tokens.reverse raw']) :=
      .inside o.bracket h
    rwa [List.length_reverse, ← List.reverse_cons, ← List.reverse_cons] at inner
  have place : places (o :: opened) ++ path = places opened ++ o.outside.tokens.length :: path := by
    simp [places]
  rw [place]
  exact .here differ

/-- **A bracket closes alike.**  Where the level it closes is the one that differs, the token
it makes does. -/
theorem Abreast.closeBracket (h : Abreast path r s) (c : Char) :
    Corresponds SyntaxError.Same (Abreast path) (r.closeBracket c) (s.closeBracket c) := by
  obtain ⟨position, mode, level, opened⟩ := r
  obtain ⟨position', mode', level', opened'⟩ := s
  obtain ⟨-, levels⟩ := h
  cases levels with
  | here differ =>
    cases opened with
    | nil => exact .error rfl
    | cons o opened =>
      have filled : level.tokens.isEmpty = false ∧ level'.tokens.isEmpty = false := by
        simpa using differ.ne_nil
      simp only [Reader.closeBracket, filled, Bool.false_eq_true, and_false, if_false]
      split
      · exact .error rfl
      · exact .ok ⟨.between, .close differ⟩
  | @around l l' inner opened opened' _ b start start' differ =>
    simp only [Reader.closeBracket]
    split
    · exact .error rfl
    · split
      · exact .error rfl
      · refine .ok ⟨.between, ?_⟩
        simpa using (differ.push _).read (c :: (level.text ++ [b.opening]))

/-- Between tokens two readers go on alike. -/
theorem Abreast.begin (h : Abreast path r s) (c : Char) :
    Corresponds SyntaxError.Same (Abreast path) (r.begin c) (s.begin c) := by
  unfold Reader.begin
  split
  · exact .ok (h.pass c .between)
  · split
    · exact h.closeBracket c
    · split
      · next b _ => exact .ok (h.openBracket b)
      · split
        · exact .ok (h.pass c .block)
        · split
          · exact .ok (h.pass c .quoted)
          · exact .ok (h.pass c .word)

/-- A word is the same token wherever it starts, or at fault there. -/
theorem token_corresponds (start start' : Nat) (word : List Char) :
    Corresponds SyntaxError.Same Eq (Word.token start word) (Word.token start' word) := by
  have chain (ps : List (List Char)) : ∀ start start', Corresponds SyntaxError.Same Eq
      (Word.chain start ps) (Word.chain start' ps) := by
    induction ps with
    | nil => exact fun _ _ => .ok rfl
    | cons part ps ih =>
      intro start start'
      rw [Word.chain, Word.chain]
      split
      · exact .error rfl
      · exact (ih _ _).bind fun _ _ same => .ok (congrArg _ same)
  unfold Word.token
  split
  · exact (chain _ start start').bind fun _ _ same => .ok (by rw [same])
  · exact .ok rfl

/-- A word ends alike. -/
theorem Abreast.endWord (h : Abreast path r s) (start start' : Nat) (read : List Char) :
    Corresponds SyntaxError.Same (Abreast path) (r.endWord start read) (s.endWord start' read) :=
  (token_corresponds start start' read.reverse).bind fun t _ same => .ok (same ▸ h.push t)

/-- A block ends alike. -/
theorem Abreast.endBlock (h : Abreast path r s) (start start' : Nat) (read : List Char) :
    Corresponds SyntaxError.Same (Abreast path) (r.endBlock start read)
      (s.endBlock start' read) := by
  unfold Reader.endBlock
  dsimp only
  split
  · exact .error rfl
  · exact .ok (h.push _)

/-- **Two readers abreast take each step alike.** -/
theorem Abreast.step (h : Abreast path r s) (c : Char) :
    Corresponds SyntaxError.Same (Abreast path) (r.step c) (s.step c) := by
  have mode := h.mode
  unfold Reader.step
  generalize r.mode = m at mode ⊢
  generalize s.mode = m' at mode ⊢
  cases mode with
  | between => exact h.begin c
  | @word start start' read =>
    dsimp only
    split
    · exact (h.endWord start start' read).bind fun _ _ done => done.begin c
    · exact .ok (h.pass c .word)
  | @quoted quote escaped read =>
    cases escaped with
    | true => exact .ok (h.pass c .quoted)
    | false =>
      dsimp only
      split
      · exact .ok (h.pass c .quoted)
      · split
        · exact .ok ((h.pass c .between).push _)
        · exact .ok (h.pass c .quoted)
  | @block start start' depth quote read =>
    cases quote with
    | some string => exact .ok (h.pass c .block)
    | none =>
      dsimp only
      split
      · exact .ok (h.pass c .block)
      · split
        · exact .ok (h.pass c .block)
        · split
          · cases depth with
            | zero => exact (h.pass c .between).endBlock start start' read
            | succ depth => exact .ok (h.pass c .block)
          · exact .ok (h.pass c .block)

/-- Two readers abreast stay so. -/
theorem Abreast.run (h : Abreast path r s) (text : List Char) :
    Corresponds SyntaxError.Same (Abreast path) (r.run text) (s.run text) := by
  induction text generalizing r s with
  | nil => exact .ok h
  | cons c text ih => exact (h.step c).bind fun _ _ next => ih next

theorem Abreast.closeAll (h : Abreast path r s) :
    Corresponds SyntaxError.Same (TextsDiffer path) r.closeAll s.closeAll := by
  obtain ⟨position, mode, level, opened⟩ := r
  obtain ⟨position', mode', level', opened'⟩ := s
  obtain ⟨-, levels⟩ := h
  cases levels with
  | here differ =>
    cases opened with
    | nil => exact .ok differ
    | cons o opened => exact .error rfl
  | around => exact .error rfl

/-- **Two readers abreast finish alike**, with rows that differ at the place. -/
theorem Abreast.finish (h : Abreast path r s) :
    Corresponds SyntaxError.Same (TextsDiffer path) r.finish s.finish := by
  have mode := h.mode
  unfold Reader.finish
  generalize r.mode = m at mode ⊢
  generalize s.mode = m' at mode ⊢
  cases mode with
  | between => exact h.closeAll
  | @word start start' read =>
    exact (h.endWord start start' read).bind fun _ _ done => done.closeAll
  | quoted => exact .error rfl
  | @block start start' depth quote read =>
    cases quote <;> exact .error rfl

/-- The end of a script is read behind a text as it is behind its tokens. -/
theorem Reads.finish_behind {a b : List Char} {ts : List Token} (h : Reads a ts) {r : Reader}
    (hr : r.mode = .between) (ends : EndsWord b) :
    (r.run (a ++ b)).bind finish = ((r.after a ts).run b).bind finish := by
  cases b with
  | nil =>
    obtain ⟨s, hs, finish, -⟩ := h r hr
    rw [List.append_nil, hs]
    exact finish
  | cons c b => rw [h.run_behind hr (ends c rfl)]

/-- Readers behind two texts for one token that keep different texts. -/
theorem abreast_after (r : Reader) (a b : List Char) (bracket : Bracket) (items : List Token)
    (raw raw' : String) : Abreast r.place
      (r.after a [bracket.token items raw]) (r.after b [bracket.token items raw']) := by
  refine ⟨.between, .here ?_⟩
  have row : TextsDiffer [r.level.tokens.reverse.length]
      (r.level.tokens.reverse ++ [bracket.token items raw])
      (r.level.tokens.reverse ++ [bracket.token items raw']) :=
    .here bracket
  rw [List.length_reverse] at row
  simpa [after] using row

end Reader

open Reader

theorem tokens?_eq (text : List Char) : tokens? text =
    ((run {} text).bind finish).bind fun ts => if ts.isEmpty then .error .empty else .ok ts := by
  unfold tokens?
  cases run {} text <;> rfl

/-- **What two texts for one token make of a script** differs only in the texts kept at its place
and around it. -/
theorem tokens?_replace {before after a b : List Char} {path : List Nat} {bracket : Bracket}
    {items : List Token} {raw raw' : String} (ha : Reads a [bracket.token items raw])
    (hb : Reads b [bracket.token items raw'])
    (stands : ∀ r, run {} before = .ok r → r.mode = .between ∧ r.place = path)
    (ends : EndsWord after) :
    Corresponds SyntaxError.Same (TextsDiffer path) (tokens? (before ++ (a ++ after)))
      (tokens? (before ++ (b ++ after))) := by
  have whole : Corresponds SyntaxError.Same (TextsDiffer path)
      ((run {} (before ++ (a ++ after))).bind finish)
      ((run {} (before ++ (b ++ after))).bind finish) := by
    rw [run_append, run_append]
    cases start : run {} before with
    | error e => exact .error rfl
    | ok r =>
      obtain ⟨between, rfl⟩ := stands r start
      show Corresponds _ _ ((r.run (a ++ after)).bind finish) ((r.run (b ++ after)).bind finish)
      rw [ha.finish_behind between ends, hb.finish_behind between ends]
      exact ((abreast_after r a b bracket items raw raw').run after).bind fun _ _ h => h.finish
  rw [tokens?_eq, tokens?_eq]
  refine whole.bind fun ts us differ => ?_
  have filled : ts.isEmpty = false ∧ us.isEmpty = false := by simpa using differ.ne_nil
  rw [filled.1, filled.2]
  exact .ok differ

end Tabletop
