/-
# Recognition: a reader finds only what is spelled

Behind every part of a script a reader stands in the middle of a derivation of the
grammar: it lacks the rest of one piece (`Mode.Ends`), the rest of the present level,
and for each open bracket its end and the rest of the level around it
(`Reader.Tracks`).  Each character that is read takes one off what is lacking, and at the
end of a script nothing is.

With `Spells.reads` this makes reading a decision of the grammar
(`tokens?_eq_ok_iff`): a script reads as the tokens it spells, and as no others.
-/

import Tabletop.Proofs.Grammar

namespace Tabletop

theorem Bracket.ofOpening?_eq_some_iff {c : Char} {b : Bracket} :
    ofOpening? c = some b ↔ c = b.opening := by
  unfold ofOpening?
  cases b <;> grind [opening]

namespace Reader

/-! ### What is lacking -/

/-- A piece is ended by a text, and is a row of tokens then: none between two pieces. -/
inductive Mode.Ends : Mode → List Char → List Token → Prop
  | between : Ends .between [] []
  | word {start read more t} : (∀ c ∈ more, endsWord c = false) →
      Word.Means (read.reverse ++ more) t → Ends (.word start read) more [t]
  | quoted {quote escaped read body text} : Quotes quote escaped body text →
      Ends (.quoted quote escaped read) (body ++ [quote])
        [.quoted (String.ofList (read.reverse ++ text))]
  | block {start depth read body} : Balanced depth body →
      trimBlanks (read.reverse ++ body) ≠ [] →
      Ends (.block start depth none read) (body ++ ['\x7d'])
        [.block (String.ofList (trimBlanks (read.reverse ++ body)))]
  | string {start depth quote escaped read inner text piece ts} :
      Quotes quote escaped inner text →
      Ends (.block start depth none (quote :: (inner.reverse ++ read))) piece ts →
      Ends (.block start depth (some (quote, escaped)) read) (inner ++ quote :: piece) ts

/-- What may follow a piece: behind a word, what ends it. -/
def Mode.Allows : Mode → List Char → Prop
  | .word .. => EndsWord
  | _ => fun _ => True

/-- A level is spelled once its last piece is ended and the rest is spelled. -/
def Level.Expects (l : Level) (mode : Mode) : Prop :=
  ∀ ⦃piece ts rest us⦄, mode.Ends piece ts → mode.Allows rest → Spells rest us →
    Spells (l.text.reverse ++ (piece ++ rest)) (l.tokens.reverse ++ (ts ++ us))

/-- A level is spelled if the rest is, and ends a word. -/
def Level.Joins (l : Level) : Prop :=
  ∀ ⦃rest us⦄, EndsWord rest → Spells rest us →
    Spells (l.text.reverse ++ rest) (l.tokens.reverse ++ us)

/-- What has been read, from the last to the first: the present level and those around it. -/
def seen (r : Reader) : List Char :=
  r.level.text ++ r.opened.flatMap fun o => o.bracket.opening :: o.outside.text

/-- A reader that stands behind a part of a script. -/
structure Tracks (r : Reader) (source : List Char) : Prop where
  seen : r.seen.reverse = source
  inside : r.level.Expects r.mode
  outside : ∀ o ∈ r.opened, o.outside.Joins

variable {r r' : Reader} {source : List Char} {c : Char}

theorem Level.Expects.joins {l : Level} (h : l.Expects .between) : l.Joins :=
  fun _ _ _ hr => h .between trivial hr

/-- A level of which nothing has been read. -/
theorem Level.expects_empty : Level.Expects {} .between := by
  intro piece ts rest us ends _ hr
  cases ends
  exact hr

/-- **A word that is done** is spelled before what ends it. -/
theorem Level.Expects.endWord {l : Level} {start : Nat} {read : List Char} {t : Token}
    (h : l.Expects (.word start read)) (ht : Word.token start read.reverse = .ok t) :
    Level.Joins ⟨t :: l.tokens, l.text⟩ := by
  intro rest us ends hr
  have means : Word.Means (read.reverse ++ []) t := by
    rw [List.append_nil]
    exact Word.token_eq_ok_iff.1 ht
  have := h (.word (fun _ hc => absurd hc List.not_mem_nil) means) ends hr
  rwa [List.reverse_cons, List.append_assoc]

/-! ### A character taken -/

/-- A character inside a piece, with the tokens it ends. -/
structure Takes (r : Reader) (c : Char) (r' : Reader) (ts : List Token) : Prop where
  text : r'.level.text = c :: r.level.text
  tokens : r'.level.tokens = ts.reverse ++ r.level.tokens
  opened : r'.opened = r.opened
  ends : ∀ {piece us}, r'.mode.Ends piece us → r.mode.Ends (c :: piece) (ts ++ us)
  allows : ∀ {rest}, r'.mode.Allows rest → r.mode.Allows rest

theorem Takes.tracks {ts : List Token} (t : r.Takes c r' ts) (h : r.Tracks source) :
    r'.Tracks (source ++ [c]) where
  seen := by
    rw [← h.seen, Reader.seen, t.text, t.opened]
    exact List.reverse_cons
  inside := by
    intro piece us rest vs ends allows hr
    have whole := h.inside (t.ends ends) (t.allows allows) hr
    rw [t.text, t.tokens]
    simpa using whole
  outside := t.opened ▸ h.outside

/-- A character of a piece that goes on. -/
theorem takes_pass {mode : Mode}
    (ends : ∀ {piece us}, mode.Ends piece us → r.mode.Ends (c :: piece) us)
    (allows : ∀ {rest}, mode.Allows rest → r.mode.Allows rest) :
    r.Takes c (r.pass c mode) [] :=
  ⟨rfl, rfl, rfl, ends, allows⟩

/-- The last character of a piece. -/
theorem takes_push {t : Token} (ends : r.mode.Ends [c] [t])
    (allows : ∀ {rest}, r.mode.Allows rest) :
    r.Takes c ((r.pass c .between).push t) [t] where
  text := rfl
  tokens := rfl
  opened := rfl
  ends := by
    intro piece us h
    cases h
    exact ends
  allows _ := allows

/-- Inside a string each character is taken. -/
theorem takes_quoted {quote : Char} {escaped : Bool} {read : List Char}
    (hr : r.mode = .quoted quote escaped read) (h : r.step c = .ok r') :
    ∃ ts, r.Takes c r' ts := by
  rw [step, hr] at h
  cases escaped with
  | true =>
    cases h
    refine ⟨[], takes_pass (fun ends => ?_) fun _ => hr ▸ trivial⟩
    cases ends with
    | quoted inside =>
      rw [hr]
      have whole := inside.escaped (c := c)
      simpa using (.quoted whole : (Mode.quoted quote true read).Ends _ _)
  | false =>
    simp only at h
    split at h
    · next slash =>
      cases h
      subst slash
      refine ⟨[], takes_pass (fun ends => ?_) fun _ => hr ▸ trivial⟩
      cases ends with
      | quoted inside =>
        rw [hr]
        exact .quoted (.backslash inside)
    · next slash =>
      split at h
      · next closes =>
        cases h
        subst closes
        refine ⟨_, takes_push ?_ fun {_} => hr ▸ trivial⟩
        rw [hr]
        simpa using (.quoted .nil : (Mode.quoted c false read).Ends _ _)
      · next other =>
        cases h
        refine ⟨[], takes_pass (fun ends => ?_) fun _ => hr ▸ trivial⟩
        cases ends with
        | quoted inside =>
          rw [hr]
          have whole := inside.plain slash other
          simpa using (.quoted whole : (Mode.quoted quote false read).Ends _ _)

/-- Inside a string of a block each character is taken. -/
theorem takes_string {start depth : Nat} {quote : Char} {escaped : Bool} {read : List Char}
    (hr : r.mode = .block start depth (some (quote, escaped)) read) (h : r.step c = .ok r') :
    r.Takes c r' [] := by
  rw [step, hr] at h
  cases h
  refine takes_pass (fun ends => ?_) fun _ => hr ▸ trivial
  rw [hr]
  cases escaped with
  | true =>
    cases ends with
    | string inside ends =>
      refine .string (.escaped inside) ?_
      simpa using ends
  | false =>
    simp only [Bool.false_eq_true, if_false] at ends
    split at ends
    · next slash =>
      subst slash
      cases ends with
      | string inside ends =>
        refine .string (.backslash inside) ?_
        simpa using ends
    · next slash =>
      split at ends
      · next closes =>
        subst closes
        exact .string .nil ends
      · next other =>
        cases ends with
        | string inside ends =>
          refine .string (.plain slash other inside) ?_
          simpa using ends

/-- A block of which a part more has been taken. -/
theorem Mode.Ends.behind {start depth : Nat} {read body : List Char} (taken : List Char)
    (h : Balanced depth (taken ++ body))
    (ne : trimBlanks ((taken.reverse ++ read).reverse ++ body) ≠ []) :
    Ends (.block start depth none read) (taken ++ (body ++ ['\x7d']))
      [.block (String.ofList (trimBlanks ((taken.reverse ++ read).reverse ++ body)))] := by
  have order : (taken.reverse ++ read).reverse ++ body = read.reverse ++ (taken ++ body) := by simp
  rw [order] at ne ⊢
  rw [← List.append_assoc]
  exact .block h ne

/-- What a character inside a block does: it begins a string, opens or closes a block
inside, ends the block, which is not blank, or is one more of its characters. -/
theorem step_block_cases {start depth : Nat} {read : List Char}
    (hr : r.mode = .block start depth none read) (h : r.step c = .ok r') :
    (isQuote c = true ∧ r' = r.pass c (.block start depth (some (c, false)) (c :: read))) ∨
    (c = '\x7b' ∧ r' = r.pass c (.block start (depth + 1) none (c :: read))) ∨
    (c = '\x7d' ∧ ∃ around, depth = around + 1 ∧
      r' = r.pass c (.block start around none (c :: read))) ∨
    (c = '\x7d' ∧ depth = 0 ∧ trimRead read ≠ [] ∧
      r' = (r.pass c .between).push (.block (String.ofList (trimRead read)))) ∨
    ((isQuote c = false ∧ c ≠ '\x7b' ∧ c ≠ '\x7d') ∧
      r' = r.pass c (.block start depth none (c :: read))) := by
  rw [Reader.step, hr] at h
  simp only at h
  split at h
  · next quote =>
    cases h
    exact .inl ⟨quote, rfl⟩
  · next quote =>
    split at h
    · next opens =>
      cases h
      exact .inr (.inl ⟨opens, rfl⟩)
    · next opens =>
      split at h
      · next closes =>
        cases depth with
        | succ around =>
          cases h
          exact .inr (.inr (.inl ⟨closes, around, rfl, rfl⟩))
        | zero =>
          simp only [endBlock] at h
          split at h
          · cases h
          · next filled =>
            cases h
            exact .inr (.inr (.inr (.inl ⟨closes, rfl, mt List.isEmpty_iff.2 filled, rfl⟩)))
      · next closes =>
        cases h
        exact .inr (.inr (.inr (.inr ⟨⟨Bool.eq_false_iff.2 quote, opens, closes⟩, rfl⟩)))

/-- Inside a block each character is taken. -/
theorem takes_block {start depth : Nat} {read : List Char}
    (hr : r.mode = .block start depth none read) (h : r.step c = .ok r') :
    ∃ ts, r.Takes c r' ts := by
  have step {mode : Mode} (ends : ∀ {piece us}, mode.Ends piece us →
      (Mode.block start depth none read).Ends (c :: piece) us) : r.Takes c (r.pass c mode) [] :=
    takes_pass (fun h => hr ▸ ends h) fun _ => hr ▸ trivial
  obtain ⟨quote, rfl⟩ | ⟨rfl, rfl⟩ | ⟨rfl, around, rfl, rfl⟩ | ⟨rfl, rfl, filled, rfl⟩ |
    ⟨⟨quote, opens, closes⟩, rfl⟩ := step_block_cases hr h
  · refine ⟨[], step fun ends => ?_⟩
    cases ends with
    | @string _ _ _ _ _ inner _ _ _ inside ends =>
      cases ends with
      | block body ne =>
        have balanced := Balanced.quoted quote inside body
        simpa using Mode.Ends.behind (c :: (inner ++ [c])) (by simpa using balanced)
          (by simpa using ne)
  · refine ⟨[], step fun ends => ?_⟩
    cases ends with
    | block body ne => exact .behind ['\x7b'] (.opening body) ne
  · refine ⟨[], step fun ends => ?_⟩
    cases ends with
    | block body ne => exact .behind ['\x7d'] (.closing body) ne
  · refine ⟨_, takes_push ?_ fun {_} => hr ▸ trivial⟩
    rw [hr]
    rw [trimRead_eq, ← List.append_nil read.reverse] at filled ⊢
    exact .block .nil filled
  · refine ⟨[], step fun ends => ?_⟩
    cases ends with
    | block body ne => exact .behind [c] (.plain quote opens closes body) ne

/-! ### A piece begun -/

/-- A character with which a piece begins, behind what it ends. -/
theorem Level.Joins.begin {l : Level} (h : l.Joins) (hc : endsWord c = true) {mode : Mode}
    (spells : ∀ {piece ts rest us}, mode.Ends piece ts → Spells rest us →
      Spells (c :: (piece ++ rest)) (ts ++ us)) : Level.Expects ⟨l.tokens, c :: l.text⟩ mode := by
  intro piece ts rest us ends _ hr
  simpa using h (.cons hc _) (spells ends hr)

/-- The first letter of a word, where no word stands before. -/
theorem Level.Expects.begin_word {l : Level} (h : l.Expects .between) (hc : endsWord c = false)
    {start : Nat} : Level.Expects ⟨l.tokens, c :: l.text⟩ (.word start [c]) := by
  intro piece ts rest us ends follows hr
  cases ends with
  | @word _ _ _ t letters means =>
    have whole : Spells (c :: piece ++ rest) (t :: us) :=
      .word (List.cons_ne_nil _ _) (List.forall_mem_cons.2 ⟨hc, letters⟩) means follows hr
    simpa using h .between trivial whole

/-- A bracket that is closed is a piece of the level around it. -/
theorem Level.Joins.close {inner outer : Level} (h : inner.Joins) (h' : outer.Joins) {b : Bracket}
    (ne : b = .round → inner.tokens ≠ []) :
    Level.Expects
      ⟨b.token inner.tokens.reverse (String.ofList (trimRead inner.text)) :: outer.tokens,
        b.closing :: (inner.text ++ b.opening :: outer.text)⟩ .between := by
  intro piece ts rest us ends _ hr
  cases ends
  have inside : Spells inner.text.reverse inner.tokens.reverse := by
    simpa using h .nil .nil
  have opens : endsWord b.opening = true := by cases b <;> rfl
  have whole := h' (.cons opens _) (.bracket b inside (by simpa using ne) hr)
  rw [trimRead_eq]
  simpa using whole

/-! ### The whole way -/

/-- A character that belongs to the present level. -/
theorem pass_tracks (seen : r.seen.reverse = source) {mode : Mode}
    (inside : Level.Expects ⟨r.level.tokens, c :: r.level.text⟩ mode)
    (outside : ∀ o ∈ r.opened, o.outside.Joins) : (r.pass c mode).Tracks (source ++ [c]) := by
  refine ⟨?_, inside, outside⟩
  rw [← seen]
  exact List.reverse_cons

/-- A bracket is opened. -/
theorem openBracket_tracks (seen : r.seen.reverse = source) (joins : r.level.Joins)
    (outside : ∀ o ∈ r.opened, o.outside.Joins) (b : Bracket) :
    (r.openBracket b).Tracks (source ++ [b.opening]) := by
  refine ⟨?_, Level.expects_empty, List.forall_mem_cons.2 ⟨joins, outside⟩⟩
  rw [← seen]
  simp [Reader.seen, openBracket]

/-- A bracket is closed. -/
theorem closeBracket_tracks (seen : r.seen.reverse = source) (joins : r.level.Joins)
    (outside : ∀ o ∈ r.opened, o.outside.Joins) (h : r.closeBracket c = .ok r') :
    r'.Tracks (source ++ [c]) := by
  rw [closeBracket] at h
  split at h
  · cases h
  · next o opened ho =>
    rw [ho] at outside
    obtain ⟨around, outside⟩ := List.forall_mem_cons.1 outside
    split at h
    · cases h
    · next same =>
      rw [ne_eq, Decidable.not_not] at same
      split at h
      · cases h
      · next filled =>
        cases h
        subst same
        refine ⟨?_, joins.close around fun hb => ?_, outside⟩
        · rw [← seen, Reader.seen, Reader.seen, ho]
          simp
        · rw [not_and, List.isEmpty_iff] at filled
          exact filled hb

/-- What ends a word is a blank, closes or opens a bracket, or begins a block or a string. -/
theorem begin_cases (hc : endsWord c = true) (h : r.begin c = .ok r') :
    (isBlank c = true ∧ r' = r.pass c .between) ∨
    r.closeBracket c = .ok r' ∨
    (∃ b : Bracket, c = b.opening ∧ r' = r.openBracket b) ∨
    (c = '\x7b' ∧ r' = r.pass c (.block r.position 0 none [])) ∨
    (isQuote c = true ∧ r' = r.pass c (.quoted c false [])) := by
  rw [Reader.begin] at h
  split at h
  · next blank =>
    cases h
    exact .inl ⟨blank, rfl⟩
  · next blank =>
    split at h
    · exact .inr (.inl h)
    · next closing =>
      split at h
      · next b hb =>
        cases h
        exact .inr (.inr (.inl ⟨b, Bracket.ofOpening?_eq_some_iff.1 hb, rfl⟩))
      · next other =>
        split at h
        · next opens =>
          cases h
          exact .inr (.inr (.inr (.inl ⟨opens, rfl⟩)))
        · next opens =>
          split at h
          · next quote =>
            cases h
            exact .inr (.inr (.inr (.inr ⟨quote, rfl⟩)))
          · next quote =>
            have square : c ≠ '(' ∧ c ≠ '[' := by
              constructor
              all_goals
                rintro rfl
                cases other
            simp [endsWord, isDelimiter, square] at hc
            simp_all [isClosing, isQuote]

/-- What ends a word keeps a reader on its way. -/
theorem begin_tracks (seen : r.seen.reverse = source) (joins : r.level.Joins)
    (outside : ∀ o ∈ r.opened, o.outside.Joins) (hc : endsWord c = true)
    (h : r.begin c = .ok r') : r'.Tracks (source ++ [c]) := by
  obtain ⟨blank, rfl⟩ | closes | ⟨b, rfl, rfl⟩ | ⟨rfl, rfl⟩ | ⟨quote, rfl⟩ := begin_cases hc h
  · refine pass_tracks seen (joins.begin hc fun ends hr => ?_) outside
    cases ends
    exact .blank blank hr
  · exact closeBracket_tracks seen joins outside closes
  · exact openBracket_tracks seen joins outside b
  · refine pass_tracks seen (joins.begin hc fun ends hr => ?_) outside
    cases ends with
    | block balanced ne => simpa using Spells.block balanced ne hr
  · refine pass_tracks seen (joins.begin hc fun ends hr => ?_) outside
    cases ends with
    | quoted inside => simpa using Spells.quoted quote inside hr

/-- **Each character keeps a reader on its way.** -/
theorem Tracks.step (h : r.Tracks source) (hr : r.step c = .ok r') :
    r'.Tracks (source ++ [c]) := by
  cases mode : r.mode with
  | between =>
    have inside := h.inside
    rw [mode] at inside
    rw [Reader.step, mode] at hr
    cases hc : endsWord c with
    | true => exact begin_tracks h.seen inside.joins h.outside hc hr
    | false =>
      cases (r.begin_word hc).symm.trans hr
      exact pass_tracks h.seen (inside.begin_word hc) h.outside
  | word start read =>
    have inside := h.inside
    rw [mode] at inside
    rw [Reader.step, mode] at hr
    cases hc : endsWord c with
    | true =>
      replace hr := (if_pos hc).symm.trans hr
      rw [endWord] at hr
      cases ht : Word.token start read.reverse with
      | error e =>
        rw [ht] at hr
        cases hr
      | ok t =>
        rw [ht] at hr
        exact begin_tracks (r := r.push t) h.seen (inside.endWord ht) h.outside hc hr
    | false =>
      cases (if_neg (by rw [← endsWord, hc]; decide)).symm.trans hr
      refine (takes_pass (fun ends => ?_) fun allows => ?_ : r.Takes c _ []).tracks h
      · cases ends with
        | word letters means =>
          rw [mode]
          refine .word (List.forall_mem_cons.2 ⟨hc, letters⟩) ?_
          simpa using means
      · rw [mode]
        exact allows
  | quoted quote escaped read =>
    obtain ⟨ts, t⟩ := takes_quoted mode hr
    exact t.tracks h
  | block start depth string read =>
    cases string with
    | none =>
      obtain ⟨ts, t⟩ := takes_block mode hr
      exact t.tracks h
    | some string => exact (takes_string mode hr).tracks h

theorem Tracks.run {text : List Char} (h : r.Tracks source) (hr : r.run text = .ok r') :
    r'.Tracks (source ++ text) := by
  induction text generalizing r source with
  | nil =>
    cases hr
    rwa [List.append_nil]
  | cons c text ih =>
    rw [run_cons] at hr
    cases step : r.step c with
    | error e =>
      rw [step] at hr
      cases hr
    | ok s =>
      rw [step] at hr
      simpa using ih (h.step step) hr

theorem tracks_start : Tracks {} [] where
  seen := rfl
  inside := Level.expects_empty
  outside _ ho := absurd ho List.not_mem_nil

/-- The tokens of a script of which no bracket is open. -/
theorem closeAll_spells {ts : List Token} (seen : r.seen.reverse = source) (joins : r.level.Joins)
    (h : r.closeAll = .ok ts) : Spells source ts := by
  rw [closeAll] at h
  split at h
  · next closed =>
    cases h
    rw [Reader.seen, closed, List.flatMap_nil, List.append_nil] at seen
    rw [← seen]
    simpa using joins .nil .nil
  · cases h

/-- **At the end of a script nothing is lacking.** -/
theorem Tracks.finish (h : r.Tracks source) {ts : List Token} (hr : r.finish = .ok ts) :
    Spells source ts := by
  have inside := h.inside
  rw [Reader.finish] at hr
  split at hr
  · next mode =>
    rw [mode] at inside
    exact closeAll_spells h.seen inside.joins hr
  · next start read mode =>
    rw [mode] at inside
    rw [endWord] at hr
    cases ht : Word.token start read.reverse with
    | error e =>
      rw [ht] at hr
      cases hr
    | ok t =>
      rw [ht] at hr
      exact closeAll_spells (r := r.push t) h.seen (inside.endWord ht) hr
  all_goals cases hr

end Reader

/-- **A script reads as the tokens it spells**, and as nothing else. -/
theorem tokens?_eq_ok_iff {text : List Char} {ts : List Token} :
    tokens? text = .ok ts ↔ Spells text ts ∧ ts ≠ [] := by
  constructor
  · intro h
    rw [tokens?] at h
    cases run : Reader.run {} text with
    | error e =>
      rw [run] at h
      cases h
    | ok r =>
      rw [run] at h
      have tracks := Reader.tracks_start.run run
      cases finish : r.finish with
      | error e =>
        simp only [bind, Except.bind, finish] at h
        cases h
      | ok us =>
        simp only [bind, Except.bind, finish] at h
        split at h
        · cases h
        · next filled =>
          cases h
          rw [List.isEmpty_iff] at filled
          exact ⟨tracks.finish finish, filled⟩
  · rintro ⟨h, ne⟩
    exact h.reads.tokens?_eq ne

end Tabletop
