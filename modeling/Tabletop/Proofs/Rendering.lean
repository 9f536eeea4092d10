/-
# Rendering: texts of expressions, taken off the front

The form for people writes an expression as a text (`Expr.print`).  Its first character
tells what kind of thing it is (`Expr.Lead`), and it ends where one of the few texts begins
that may follow an item of a row (`Stop`).  So words, integers, strings and names can be
taken off the front of a text; names too, although they may hold commas: a comma between
items has a blank behind it, and the comma in a tuple of one item has its bracket.
-/

import Tabletop.Proofs.Printed

namespace Tabletop

/-! ### Texts taken off the front -/

/-- A letter of the words that programs are written with. -/
def isLetter (c : Char) : Bool := c.isAlpha || c == '_'

/-- A character of a written integer. -/
def isNumeral (c : Char) : Bool := c.isDigit || c == '-'

/-- What may follow an item of a row: the comma before the next one, the end of the row, or
the end of the text.  The first item of a tuple never stands right before the end of it: if
it stands alone there is a comma. -/
inductive Stop : Bool → List Char → Prop
  | next {first rest} : Stop first (',' :: ' ' :: rest)
  | alone {rest} : Stop true (',' :: ')' :: rest)
  | close {c rest} : c = ')' ∨ c = ']' → Stop false (c :: rest)
  | done : Stop false []

/-- No item goes on with what may follow it. -/
theorem Stop.head {first : Bool} {rest : List Char} (h : Stop first rest) :
    ∀ c ∈ rest.head?, c = ',' ∨ c = ')' ∨ c = ']' := by
  intro c hc
  cases h with
  | next | alone =>
    cases hc
    exact .inl rfl
  | close closes =>
    cases hc
    exact .inr closes
  | done => cases hc

/-- No word or number goes on with what may follow it. -/
theorem Stop.breaks {first : Bool} {rest : List Char} (h : Stop first rest) :
    ∀ c ∈ rest.head?, isLetter c = false ∧ isNumeral c = false := by
  intro c hc
  rcases h.head c hc with rfl | rfl | rfl <;> decide

/-- A run of things of one kind is read off the front of a row. -/
theorem run_inj {α : Type} {p : α → Bool} {a b s t : List α} (ha : ∀ c ∈ a, p c = true)
    (hb : ∀ c ∈ b, p c = true) (hs : ∀ c ∈ s.head?, p c = false) (ht : ∀ c ∈ t.head?, p c = false)
    (h : a ++ s = b ++ t) : a = b ∧ s = t := by
  have ends {a s : List α} (ha : ∀ c ∈ a, p c = true) (hs : ∀ c ∈ s.head?, p c = false) :
      (a ++ s).takeWhile p = a := by
    rw [List.takeWhile_append_of_pos ha]
    cases s with
    | nil => simp
    | cons c s => simp [hs c rfl]
  have same : a = b := by rw [← ends ha hs, ← ends hb ht, h]
  subst same
  exact ⟨rfl, List.append_cancel_left h⟩

/-- A run stops before a thing of another kind. -/
theorem stop_run_cons {α : Type} {p : α → Bool} {c : α} (hc : p c = false) {rest : List α} :
    ∀ d ∈ (c :: rest).head?, p d = false := by
  intro d hd
  cases hd
  exact hc

/-- **A name is read off the front of a row**, even if it holds commas. -/
theorem name_inj {first : Bool} {n m s t : List Char} (hn : ∀ c ∈ n, endsWord c = false)
    (hm : ∀ c ∈ m, endsWord c = false) (hs : Stop first s) (ht : Stop first t)
    (h : n ++ s = m ++ t) : n = m ∧ s = t := by
  -- what may follow an item is no part of a name that is itself followed so
  have shorter {c : Char} {m s t : List Char} (letters : ∀ d ∈ c :: m, endsWord d = false)
      (hs : Stop first s) (ht : Stop first t) : s ≠ c :: (m ++ t) := by
    rintro rfl
    obtain ⟨hc, hm⟩ := List.forall_mem_cons.1 letters
    generalize more : m ++ t = rest at hs
    cases hs with
    | next =>
      cases m with
      | nil =>
        cases more
        cases ht with
        | close closes => simp at closes
      | cons d m =>
        cases more
        cases hm ' ' List.mem_cons_self
    | alone =>
      cases m with
      | nil =>
        cases more
        cases ht
      | cons d m =>
        cases more
        cases hm ')' List.mem_cons_self
    | close closes => rcases closes with rfl | rfl <;> cases hc
  induction n generalizing m with
  | nil =>
    cases m with
    | nil => exact ⟨rfl, h⟩
    | cons c m => exact absurd h (shorter hm hs ht)
  | cons c n ih =>
    cases m with
    | nil => exact absurd h.symm (shorter hn ht hs)
    | cons d m =>
      obtain ⟨rfl, tail⟩ := List.cons.inj h
      obtain ⟨rfl, rest⟩ := ih (List.forall_mem_cons.1 hn).2 (List.forall_mem_cons.1 hm).2 tail
      exact ⟨rfl, rest⟩

/-- How a character of a string is written tells the character. -/
theorem encodeChar_inj {c d : Char} {s t : List Char}
    (h : Quoted.encodeChar c ++ s = Quoted.encodeChar d ++ t) : c = d ∧ s = t := by
  rcases Quoted.encodeChar_cases c with ⟨-, plain, hc⟩ | ⟨x, hc, rfl⟩ <;>
    rcases Quoted.encodeChar_cases d with ⟨-, plain', hd⟩ | ⟨y, hd, rfl⟩ <;>
    rw [hc, hd] at h <;> obtain ⟨same, h⟩ := List.cons.inj h
  · exact ⟨same, h⟩
  · exact absurd same plain
  · exact absurd same.symm plain'
  · obtain ⟨rfl, tail⟩ := List.cons.inj h
    exact ⟨rfl, tail⟩

/-- No character is written so that it looks like the end of a string. -/
theorem encodeChar_ne_quote {c : Char} {s t : List Char} :
    Quoted.encodeChar c ++ s ≠ '"' :: t := by
  rcases Quoted.encodeChar_cases c with ⟨other, -, hc⟩ | ⟨x, hc, -⟩
  · rw [hc]
    exact fun h => other (List.cons.inj h).1
  · rw [hc]
    exact fun h => absurd (List.cons.inj h).1 (by decide)

/-- A string is read off the front of a row. -/
theorem string_inj {a b s t : List Char}
    (h : a.flatMap Quoted.encodeChar ++ '"' :: s = b.flatMap Quoted.encodeChar ++ '"' :: t) :
    a = b ∧ s = t := by
  induction a generalizing b with
  | nil =>
    cases b with
    | nil => exact ⟨rfl, (List.cons.inj h).2⟩
    | cons d b =>
      rw [List.flatMap_cons, List.append_assoc] at h
      exact absurd h.symm encodeChar_ne_quote
  | cons c a ih =>
    rw [List.flatMap_cons, List.append_assoc] at h
    cases b with
    | nil => exact absurd h encodeChar_ne_quote
    | cons d b =>
      rw [List.flatMap_cons, List.append_assoc] at h
      obtain ⟨rfl, tail⟩ := encodeChar_inj h
      obtain ⟨rfl, rest⟩ := ih tail
      exact ⟨rfl, rest⟩

/-- A written integer tells the integer. -/
theorem write_inj {n m : Int} (h : Integer.write n = Integer.write m) : n = m := by
  have natural {a b : Nat} (h : Nat.toDigits 10 a = Nat.toDigits 10 b) : a = b := by
    have read := congrArg Integer.readNatural? h
    rwa [Integer.readNatural?_toDigits, Integer.readNatural?_toDigits, Option.some_inj] at read
  have unsigned {a b : Nat} : Nat.toDigits 10 a ≠ '-' :: Nat.toDigits 10 b := by
    intro h
    have digit : '-'.isDigit = true :=
      Nat.isDigit_of_mem_toDigits (by decide) (by decide) (h ▸ List.mem_cons_self)
    cases digit
  rw [← String.toList_inj] at h
  cases n with
  | ofNat n =>
    cases m with
    | ofNat m =>
      exact congrArg Int.ofNat (natural (by simpa [Integer.write, Integer.digits] using h))
    | negSucc m => exact absurd (by simpa [Integer.write, Integer.digits] using h) unsigned
  | negSucc n =>
    cases m with
    | ofNat m => exact absurd (by simpa [Integer.write, Integer.digits] using h.symm) unsigned
    | negSucc m =>
      have same := natural (by simpa [Integer.write, Integer.digits] using h)
      exact congrArg Int.negSucc (Nat.succ.inj same)

/-! ### Texts of expressions -/

namespace Expr

/-- The text of an expression, character by character. -/
def print (e : Expr) : List Char := e.render.toList

/-- The text of an item behind a first one. -/
def behind (text : List Char) : List Char := ',' :: ' ' :: text

/-- The text of an argument, its name in front if it has one. -/
def printEntry : Option String × Expr → List Char
  | (none, e) => e.print
  | (some key, e) => key.toList ++ '=' :: e.print

/-- The arguments of a call in one row. -/
def entries (args variadic : List Expr) (named : List (String × Expr)) :
    List (Option String × Expr) :=
  args.map (none, ·) ++ variadic.map (none, ·) ++ named.map fun arg => (some arg.1, arg.2)

/-- The text of a row. -/
def printRow : List (List Char) → List Char
  | [] => []
  | text :: texts => text ++ texts.flatMap behind

theorem intercalate_eq_printRow (texts : List (List Char)) :
    [',', ' '].intercalate texts = printRow texts := by
  induction texts with
  | nil => rfl
  | cons text texts ih =>
    cases texts with
    | nil => simp [printRow]
    | cons next texts =>
      rw [List.intercalate_cons_cons, ih]
      simp [printRow, behind]

theorem map_toList_renderAll (es : List Expr) :
    (renderAll es).map String.toList = es.map print := by
  induction es with
  | nil => rfl
  | cons e es ih =>
    rw [renderAll, List.map_cons, List.map_cons, ih]
    rfl

theorem map_toList_renderNamed (named : List (String × Expr)) :
    (renderNamed named).map String.toList =
      named.map fun arg => printEntry (some arg.1, arg.2) := by
  induction named with
  | nil => rfl
  | cons arg named ih =>
    obtain ⟨key, e⟩ := arg
    rw [renderNamed, List.map_cons, List.map_cons, ih]
    simp [printEntry, print]

theorem print_str (text : String) : (literal (.str text)).print =
    '"' :: text.toList.flatMap Quoted.encodeChar ++ ['"'] := String.toList_ofList

theorem print_name (text : String) : (name text).print = '@' :: text.toList :=
  String.toList_append

theorem print_list (items : List Expr) :
    (list items).print = '[' :: (printRow (items.map print) ++ [']']) := by
  simp [print, render, map_toList_renderAll, intercalate_eq_printRow]

theorem print_tuple (items : List Expr) : (tuple items).print =
    '(' :: (printRow (items.map print) ++ ((if items.length = 1 then [','] else []) ++ [')'])) := by
  simp only [print, render, String.toList_append]
  split <;> simp [map_toList_renderAll, intercalate_eq_printRow]

theorem print_call (target : String) (args variadic : List Expr) (named : List (String × Expr)) :
    (call target args variadic named).print = target.toList ++
      '(' :: (printRow ((entries args variadic named).map printEntry) ++ [')']) := by
  have plain (es : List Expr) : (es.map fun e => printEntry (none, e)) = es.map print := rfl
  simp [print, render, map_toList_renderAll, map_toList_renderNamed, intercalate_eq_printRow,
    entries, Function.comp_def, plain]

/-! ### Kinds of items -/

/-- What kind of thing an item is, as its first character tells. -/
inductive Lead
  | word
  | number
  | string
  | name
  | list
  | tuple
deriving DecidableEq

/-- The kind of thing a character begins. -/
def Lead.of? (c : Char) : Option Lead :=
  if isLetter c then some .word
  else if isNumeral c then some .number
  else if c = '"' then some .string
  else if c = '@' then some .name
  else if c = '[' then some .list
  else if c = '(' then some .tuple
  else none

/-- What kind of thing an expression is written as. -/
def lead : Expr → Lead
  | .literal (.int _) => .number
  | .literal (.str _) => .string
  | .literal .none | .literal (.bool _) | .role _ | .call .. => .word
  | .name _ => .name
  | .list _ => .list
  | .tuple _ => .tuple

/-- The word that an expression is written as, if it is a bare one. -/
def bare? : Expr → Option String
  | .literal .none => some "none"
  | .literal (.bool value) => some (truthText value)
  | .role r => some r.name
  | _ => none

/-- An expression written as a bare word is what the word means. -/
structure Bare (e : Expr) (w : String) : Prop where
  print : e.print = w.toList
  lead : e.lead = .word
  means : ofWord w = e
  ne : w.toList ≠ []
  letters : ∀ c ∈ w.toList, isLetter c = true

theorem of_bare? {e : Expr} {w : String} (h : e.bare? = some w) : e.Bare w := by
  cases e with
  | literal value =>
    cases value with
    | none =>
      cases h
      exact ⟨rfl, rfl, rfl, by decide, List.all_eq_true.1 (by decide)⟩
    | bool value =>
      cases h
      cases value <;> exact ⟨rfl, rfl, rfl, by decide, List.all_eq_true.1 (by decide)⟩
    | int | str => cases h
  | role r =>
    cases h
    cases r <;> exact ⟨rfl, rfl, rfl, by decide, List.all_eq_true.1 (by decide)⟩
  | _ => cases h

/-- What is written as a word is a bare word or a call. -/
theorem bare_or_call {e : Expr} (h : e.lead = .word) :
    (∃ w, e.bare? = some w) ∨
      ∃ target args variadic named, e = .call target args variadic named := by
  cases e with
  | literal value =>
    cases value with
    | none | bool => exact .inl ⟨_, rfl⟩
    | int | str => cases h
  | role r => exact .inl ⟨_, rfl⟩
  | call => exact .inr ⟨_, _, _, _, rfl⟩
  | _ => cases h

end Expr

end Tabletop
