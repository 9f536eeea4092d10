/-
# Unambiguous: scripts that are shown alike mean the same

The form for people tells expressions apart (`Registry.rendered_unambiguous`), although
names may hold commas, strings anything, and positional, leftover and named arguments stand
in one row.

That two items are the same if texts that start with them are (`Expr.Readable`) is shown
along the expression, and along each row from item to item.  Where the positional arguments
of a call end, its function tells, and where the named ones begin, their names do
(`Registry.Telling`).
-/

import Mathlib
import Tabletop.Proofs.Arithmetic
import Tabletop.Proofs.Composition
import Tabletop.Proofs.Rendering

namespace Tabletop

/-- A vocabulary whose calls can be told apart by how they are written: functions and names
of arguments are written in letters, and the function of a call tells how many positional
arguments it has. -/
structure Registry.Telling (r : Registry) : Prop where
  target : ∀ {w k}, r.keyword? w = some k →
    k.target.toList ≠ [] ∧ ∀ c ∈ k.target.toList, isLetter c = true
  key : ∀ {w k}, r.keyword? w = some k → ∀ arg ∈ k.named, ∀ c ∈ arg.1.toList, isLetter c = true
  arity : ∀ {w k w' k'}, r.keyword? w = some k → r.keyword? w' = some k' →
    k.target = k'.target → k.args.length = k'.args.length

/-- The usual vocabulary. -/
theorem Registry.telling_standard : standard.Telling where
  target h := by
    have all : ∀ k ∈ standardKeywords,
        k.target.toList ≠ [] ∧ k.target.toList.all isLetter = true := by decide
    obtain ⟨filled, letters⟩ := all _ (mem_standardKeywords h)
    exact ⟨filled, List.all_eq_true.1 letters⟩
  key h := by
    have all : ∀ k ∈ standardKeywords, ∀ arg ∈ k.named, arg.1.toList.all isLetter = true := by
      decide
    exact fun arg harg => List.all_eq_true.1 (all _ (mem_standardKeywords h) arg harg)
  arity h h' := by
    have all : ∀ k ∈ standardKeywords, ∀ k' ∈ standardKeywords,
        k.target = k'.target → k.args.length = k'.args.length := by decide
    exact all _ (mem_standardKeywords h) _ (mem_standardKeywords h')

namespace Expr

variable {r : Registry}

/-- A written integer is made of numerals. -/
theorem numerals_write (n : Int) :
    (Integer.write n).toList ≠ [] ∧ ∀ c ∈ (Integer.write n).toList, isNumeral c = true := by
  constructor
  · cases n <;> simp [Integer.write, Integer.digits, Nat.toDigits_ne_nil]
  · intro c hc
    rcases Reader.mem_write hc with digit | rfl
    · rw [isNumeral, digit]
      rfl
    · rfl

/-- No letter is a numeral. -/
theorem isLetter_of_isNumeral {c : Char} (h : isNumeral c = true) : isLetter c = false := by
  rw [isNumeral, Bool.or_eq_true, beq_iff_eq] at h
  rcases h with digit | rfl
  · have bounds : 48 ≤ c.toNat ∧ c.toNat ≤ 57 := by
      simpa [Char.isDigit, UInt32.le_iff_toNat_le] using digit
    have other : c ≠ '_' := by
      rintro rfl
      cases digit
    have alpha : c.isAlpha = false := by
      simp [Char.isAlpha, Char.isUpper, Char.isLower, UInt32.le_iff_toNat_le]
      omega
    simp [isLetter, alpha, other]
  · rfl

/-- **The first character of an item** tells what kind of thing it is. -/
theorem exists_lead (hr : r.Telling) {e : Expr} (h : e.Made r) :
    ∃ c rest, e.print = c :: rest ∧ Lead.of? c = some e.lead := by
  have word {w rest : List Char} (ne : w ≠ []) (letters : ∀ c ∈ w, isLetter c = true) :
      ∃ c rest', w ++ rest = c :: rest' ∧ Lead.of? c = some .word := by
    obtain ⟨c, w, rfl⟩ := List.exists_cons_of_ne_nil ne
    exact ⟨c, w ++ rest, rfl, if_pos (letters c List.mem_cons_self)⟩
  have bare {e : Expr} {w : String} (hw : e.bare? = some w) :
      ∃ c rest, e.print = c :: rest ∧ Lead.of? c = some .word := by
    have b := of_bare? hw
    rw [b.print, ← List.append_nil w.toList]
    exact word b.ne b.letters
  cases h with
  | literal value =>
    cases value with
    | none | bool => exact bare rfl
    | int n =>
      obtain ⟨ne, numerals⟩ := numerals_write n
      obtain ⟨c, rest, text⟩ := List.exists_cons_of_ne_nil ne
      have numeral := numerals c (text ▸ List.mem_cons_self)
      refine ⟨c, rest, text, ?_⟩
      rw [Lead.of?, isLetter_of_isNumeral numeral, numeral]
      rfl
    | str text => exact ⟨'"', _, print_str text, rfl⟩
  | role x => exact bare rfl
  | name => exact ⟨'@', _, print_name _, rfl⟩
  | list => exact ⟨'[', _, print_list _, rfl⟩
  | tuple => exact ⟨'(', _, print_tuple _, rfl⟩
  | call hk =>
    obtain ⟨ne, letters⟩ := hr.target hk
    rw [print_call]
    exact word ne letters

/-- Texts that start alike start with things of one kind. -/
theorem lead_eq (hr : r.Telling) {e e' : Expr} (h : e.Made r) (h' : e'.Made r) {s t : List Char}
    (same : e.print ++ s = e'.print ++ t) : e.lead = e'.lead := by
  obtain ⟨c, rest, text, lead⟩ := exists_lead hr h
  obtain ⟨c', rest', text', lead'⟩ := exists_lead hr h'
  rw [text, text'] at same
  rw [(List.cons.inj same).1, lead'] at lead
  exact (Option.some.inj lead).symm

/-! ### Items read off the front of a row -/

/-- An expression is read off the front of a row. -/
def Readable (r : Registry) (e : Expr) : Prop :=
  ∀ ⦃e' first s t⦄, e'.Made r → Stop first s → Stop first t →
    e.print ++ s = e'.print ++ t → e = e' ∧ s = t

/-- A bare word is read. -/
theorem readable_of_bare (hr : r.Telling) {e : Expr} {w : String} (h : e.Made r)
    (hw : e.bare? = some w) : e.Readable r := by
  intro e' first s t h' hs ht same
  have b := of_bare? hw
  have lead := (lead_eq hr h h' same).symm.trans b.lead
  rw [b.print] at same
  have breaks (c : Char) (hc : c ∈ s.head?) : isLetter c = false := (hs.breaks c hc).1
  rcases bare_or_call lead with ⟨w', hw'⟩ | ⟨target, args, variadic, named, rfl⟩
  · have b' := of_bare? hw'
    rw [b'.print] at same
    have breaks' := fun c hc => (ht.breaks c hc).1
    obtain ⟨words, rest⟩ := run_inj b.letters b'.letters breaks breaks' same
    rw [← b.means, String.toList_inj.1 words, b'.means]
    exact ⟨rfl, rest⟩
  · cases h' with
    | call hk =>
      rw [print_call, List.append_assoc, List.cons_append] at same
      obtain ⟨-, rfl⟩ := run_inj b.letters (hr.target hk).2 breaks (stop_run_cons (by decide)) same
      have := hs.head '(' rfl
      simp at this

/-- An integer is read. -/
theorem readable_int (hr : r.Telling) (n : Int) : (literal (.int n)).Readable r := by
  intro e' first s t h' hs ht same
  have lead := lead_eq hr (.literal _) h' same
  cases h' with
  | literal value =>
    cases value with
    | int m =>
      obtain ⟨text, rest⟩ := run_inj (numerals_write n).2 (numerals_write m).2
        (fun c hc => (hs.breaks c hc).2) (fun c hc => (ht.breaks c hc).2) same
      rw [write_inj (String.toList_inj.1 text)]
      exact ⟨rfl, rest⟩
    | _ => cases lead
  | _ => cases lead

/-- A string is read. -/
theorem readable_str (hr : r.Telling) (text : String) : (literal (.str text)).Readable r := by
  intro e' first s t h' hs ht same
  have lead := lead_eq hr (.literal _) h' same
  cases h' with
  | literal value =>
    cases value with
    | str text' =>
      rw [print_str, print_str] at same
      obtain ⟨texts, rest⟩ := string_inj (by simpa using same)
      rw [String.toList_inj.1 texts]
      exact ⟨rfl, rest⟩
    | _ => cases lead
  | _ => cases lead

/-- A name is read. -/
theorem readable_name (hr : r.Telling) {n : String} (hn : ∀ c ∈ n.toList, endsWord c = false) :
    (name n).Readable r := by
  intro e' first s t h' hs ht same
  have lead := lead_eq hr (.name hn) h' same
  cases h' with
  | name hm =>
    rw [print_name, print_name] at same
    obtain ⟨names, rest⟩ := name_inj hn hm hs ht (List.cons.inj same).2
    rw [String.toList_inj.1 names]
    exact ⟨rfl, rest⟩
  | literal value => cases value <;> cases lead
  | _ => cases lead

/-! ### Rows -/

/-- An argument is made: what it holds is, and its name is written in letters. -/
structure MadeEntry (r : Registry) (x : Option String × Expr) : Prop where
  expr : x.2.Made r
  key : ∀ key ∈ x.1, ∀ c ∈ key.toList, isLetter c = true

/-- What ends a row. -/
def Closes (c : Char) : Prop := c = ')' ∨ c = ']'

/-- No item starts like the end of a row. -/
theorem MadeEntry.head (hr : r.Telling) {x : Option String × Expr} (hx : MadeEntry r x) :
    ∃ c rest, printEntry x = c :: rest ∧ ¬ Closes c := by
  obtain ⟨key, e⟩ := x
  cases key with
  | none =>
    obtain ⟨c, rest, text, lead⟩ := exists_lead hr hx.expr
    refine ⟨c, rest, text, ?_⟩
    rintro (rfl | rfl) <;> cases lead
  | some key =>
    rw [printEntry]
    cases hk : key.toList with
    | nil => exact ⟨_, _, rfl, by rintro (h | h) <;> cases h⟩
    | cons c rest =>
      have letter := hx.key key rfl c (hk ▸ List.mem_cons_self)
      refine ⟨c, _, rfl, ?_⟩
      rintro (rfl | rfl) <;> cases letter

/-- No item looks like an argument with a name. -/
theorem print_ne_key (hr : r.Telling) {e : Expr} (h : e.Made r) {first : Bool} {s rest : List Char}
    (hs : Stop first s) {key : String} (letters : ∀ c ∈ key.toList, isLetter c = true) :
    e.print ++ s ≠ key.toList ++ '=' :: rest := by
  intro same
  have lead : e.lead = .word := by
    obtain ⟨c, rest', text, lead⟩ := exists_lead hr h
    rw [text] at same
    cases hk : key.toList with
    | nil =>
      rw [hk] at same
      obtain ⟨rfl, -⟩ := List.cons.inj same
      cases lead
    | cons d key =>
      rw [hk] at same
      obtain ⟨rfl, -⟩ := List.cons.inj same
      rw [Lead.of?, if_pos (letters _ (hk ▸ List.mem_cons_self))] at lead
      exact (Option.some.inj lead).symm
  rcases bare_or_call lead with ⟨w, hw⟩ | ⟨target, args, variadic, named, rfl⟩
  · have b := of_bare? hw
    rw [b.print] at same
    obtain ⟨-, rfl⟩ := run_inj b.letters letters (fun c hc => (hs.breaks c hc).1)
      (stop_run_cons (by decide)) same
    have := hs.head '=' rfl
    simp at this
  · cases h with
    | call hk =>
      rw [print_call, List.append_assoc, List.cons_append] at same
      obtain ⟨-, tail⟩ := run_inj (hr.target hk).2 letters (stop_run_cons (by decide))
        (stop_run_cons (by decide)) same
      exact absurd (List.cons.inj tail).1 (by decide)

/-- An argument is read off the front of a row. -/
theorem entry_inj (hr : r.Telling) {x y : Option String × Expr} (hx : MadeEntry r x)
    (hy : MadeEntry r y) (readable : x.2.Readable r) {first : Bool} {s t : List Char}
    (hs : Stop first s) (ht : Stop first t) (same : printEntry x ++ s = printEntry y ++ t) :
    x = y ∧ s = t := by
  obtain ⟨_ | key, e⟩ := x <;> obtain ⟨_ | key', e'⟩ := y
  · obtain ⟨rfl, rest⟩ := readable hy.expr hs ht same
    exact ⟨rfl, rest⟩
  · rw [printEntry, printEntry, List.append_assoc] at same
    exact absurd same (print_ne_key hr hx.expr hs (hy.key key' rfl))
  · rw [printEntry, printEntry, List.append_assoc] at same
    exact absurd same.symm (print_ne_key hr hy.expr ht (hx.key key rfl))
  · rw [printEntry, printEntry, List.append_assoc, List.append_assoc] at same
    obtain ⟨keys, tail⟩ := run_inj (hx.key key rfl) (hy.key key' rfl) (stop_run_cons (by decide))
      (stop_run_cons (by decide)) same
    obtain ⟨rfl, rest⟩ := readable hy.expr hs ht (List.cons.inj tail).2
    rw [String.toList_inj.1 keys]
    exact ⟨rfl, rest⟩

/-- The texts of the items behind a first one. -/
def printTail (xs : List (Option String × Expr)) : List Char := (xs.map printEntry).flatMap behind

/-- An item is followed by others or by the end of the row. -/
theorem stop_printTail (xs : List (Option String × Expr)) {c : Char} (hc : Closes c)
    (s : List Char) : Stop false (printTail xs ++ c :: s) := by
  cases xs with
  | nil => exact .close hc
  | cons x xs => exact .next

/-- The items behind a first one are read. -/
theorem printTail_inj (hr : r.Telling) {xs ys : List (Option String × Expr)}
    (hx : ∀ x ∈ xs, MadeEntry r x ∧ x.2.Readable r) (hy : ∀ y ∈ ys, MadeEntry r y) {c d : Char}
    (hc : Closes c) (hd : Closes d) {s t : List Char}
    (same : printTail xs ++ c :: s = printTail ys ++ d :: t) : xs = ys ∧ c :: s = d :: t := by
  have comma {c : Char} (hc : Closes c) {s rest : List Char} : c :: s ≠ ',' :: rest := by
    rintro h
    cases h
    rcases hc with h | h <;> cases h
  induction xs generalizing ys with
  | nil =>
    cases ys with
    | nil => exact ⟨rfl, same⟩
    | cons y ys => exact absurd same (comma hc)
  | cons x xs ih =>
    cases ys with
    | nil => exact absurd same.symm (comma hd)
    | cons y ys =>
      obtain ⟨⟨made, readable⟩, others⟩ := List.forall_mem_cons.1 hx
      obtain ⟨made', others'⟩ := List.forall_mem_cons.1 hy
      have items : printEntry x ++ (printTail xs ++ c :: s) =
          printEntry y ++ (printTail ys ++ d :: t) := by
        simpa [printTail, behind] using same
      obtain ⟨rfl, tail⟩ := entry_inj hr made made' readable (stop_printTail xs hc s)
        (stop_printTail ys hd t) items
      obtain ⟨rfl, rest⟩ := ih others others' tail
      exact ⟨rfl, rest⟩

theorem printRow_cons (x : Option String × Expr) (xs : List (Option String × Expr)) :
    printRow ((x :: xs).map printEntry) = printEntry x ++ printTail xs := rfl

/-- Where a row ends, no other begins. -/
theorem closes_ne_row (hr : r.Telling) {x : Option String × Expr} (hx : MadeEntry r x)
    (xs : List (Option String × Expr)) {c : Char} (hc : Closes c) {s t : List Char} :
    c :: s ≠ printRow ((x :: xs).map printEntry) ++ t := by
  obtain ⟨d, rest, text, open'⟩ := hx.head hr
  rw [printRow_cons, text]
  intro h
  exact open' ((List.cons.inj h).1 ▸ hc)

/-- **A row is read**, up to what ends it. -/
theorem row_inj (hr : r.Telling) {xs ys : List (Option String × Expr)}
    (hx : ∀ x ∈ xs, MadeEntry r x ∧ x.2.Readable r) (hy : ∀ y ∈ ys, MadeEntry r y) {c d : Char}
    (hc : Closes c) (hd : Closes d) {s t : List Char}
    (same : printRow (xs.map printEntry) ++ c :: s = printRow (ys.map printEntry) ++ d :: t) :
    xs = ys ∧ c :: s = d :: t := by
  cases xs with
  | nil =>
    cases ys with
    | nil => exact ⟨rfl, same⟩
    | cons y ys => exact absurd same (closes_ne_row hr (List.forall_mem_cons.1 hy).1 ys hc)
  | cons x xs =>
    obtain ⟨⟨made, readable⟩, others⟩ := List.forall_mem_cons.1 hx
    cases ys with
    | nil => exact absurd same.symm (closes_ne_row hr made xs hd)
    | cons y ys =>
      obtain ⟨made', others'⟩ := List.forall_mem_cons.1 hy
      rw [printRow_cons, printRow_cons, List.append_assoc, List.append_assoc] at same
      obtain ⟨rfl, tail⟩ := entry_inj hr made made' readable (stop_printTail xs hc s)
        (stop_printTail ys hd t) same
      obtain ⟨rfl, rest⟩ := printTail_inj hr others others' hc hd tail
      exact ⟨rfl, rest⟩

/-- Items without names. -/
def unnamed (es : List Expr) : List (Option String × Expr) := es.map (none, ·)

theorem printRow_unnamed (es : List Expr) :
    printRow (es.map print) = printRow ((unnamed es).map printEntry) := by
  rw [unnamed, List.map_map]
  rfl

theorem unnamed_inj {es es' : List Expr} (h : unnamed es = unnamed es') : es = es' :=
  List.map_injective_iff.2 (fun _ _ h => (Prod.mk.inj h).2) h

theorem made_unnamed {es : List Expr} (h : ∀ e ∈ es, e.Made r) : ∀ x ∈ unnamed es, MadeEntry r x :=
  List.forall_mem_map.2 fun e he => ⟨h e he, fun _ hk => absurd hk (Option.not_mem_none _)⟩

theorem readable_unnamed {es : List Expr} (h : ∀ e ∈ es, e.Made r)
    (readable : ∀ e ∈ es, e.Readable r) : ∀ x ∈ unnamed es, MadeEntry r x ∧ x.2.Readable r := by
  intro x hx
  refine ⟨made_unnamed h x hx, ?_⟩
  obtain ⟨e, he, rfl⟩ := List.mem_map.1 hx
  exact readable e he

/-- A list is read. -/
theorem readable_list (hr : r.Telling) {items : List Expr} (h : ∀ e ∈ items, e.Made r)
    (readable : ∀ e ∈ items, e.Readable r) : (list items).Readable r := by
  intro e' first s t h' _ _ same
  have lead := lead_eq hr (.list h) h' same
  cases h' with
  | list hy =>
    rw [print_list, print_list, printRow_unnamed, printRow_unnamed, List.cons_append,
      List.cons_append, List.append_assoc, List.append_assoc] at same
    obtain ⟨items', rest⟩ := row_inj hr (readable_unnamed h readable) (made_unnamed hy) (.inr rfl)
      (.inr rfl) (List.cons.inj same).2
    rw [unnamed_inj items']
    exact ⟨rfl, (List.cons.inj rest).2⟩
  | literal value => cases value <;> cases lead
  | _ => cases lead

/-- What stands between the items of a tuple and its end. -/
def comma (items : List Expr) : List Char := if items.length = 1 then [','] else []

/-- The items of a tuple are read, up to its end. -/
theorem tupleRow_inj (hr : r.Telling) {xs ys : List Expr} (hx : ∀ e ∈ xs, e.Made r)
    (readable : ∀ e ∈ xs, e.Readable r) (hy : ∀ e ∈ ys, e.Made r) {s t : List Char}
    (same : printRow ((unnamed xs).map printEntry) ++ (comma xs ++ ')' :: s) =
      printRow ((unnamed ys).map printEntry) ++ (comma ys ++ ')' :: t)) : xs = ys ∧ s = t := by
  have closes : Closes ')' := .inl rfl
  -- behind its first item a tuple goes on with a comma, whether or not there are more
  have stop (x : Expr) (xs : List Expr) (s : List Char) :
      Stop true (printTail (unnamed xs) ++ (comma (x :: xs) ++ ')' :: s)) := by
    cases xs with
    | nil => exact .alone
    | cons y ys => exact .next
  cases xs with
  | nil =>
    cases ys with
    | nil => exact ⟨rfl, (List.cons.inj same).2⟩
    | cons y ys =>
      exact absurd same (closes_ne_row hr (made_unnamed hy _ List.mem_cons_self) _ closes)
  | cons x xs =>
    have made := readable_unnamed hx readable
    obtain ⟨first, others⟩ := List.forall_mem_cons.1 made
    cases ys with
    | nil => exact absurd same.symm (closes_ne_row hr first.1 _ closes)
    | cons y ys =>
      obtain ⟨first', others'⟩ := List.forall_mem_cons.1 (made_unnamed hy)
      have items :
          printEntry (none, x) ++ (printTail (unnamed xs) ++ (comma (x :: xs) ++ ')' :: s)) =
            printEntry (none, y) ++ (printTail (unnamed ys) ++ (comma (y :: ys) ++ ')' :: t)) := by
        simpa [unnamed, printRow, printTail] using same
      obtain ⟨equal, tail⟩ := entry_inj hr first.1 first' first.2 (stop x xs s) (stop y ys t) items
      cases equal
      cases xs with
      | nil =>
        cases ys with
        | nil => exact ⟨rfl, (List.cons.inj (List.cons.inj tail).2).2⟩
        | cons => exact absurd (List.cons.inj (List.cons.inj tail).2).1 (by decide)
      | cons x' xs =>
        cases ys with
        | nil => exact absurd (List.cons.inj (List.cons.inj tail).2).1 (by decide)
        | cons y' ys =>
          obtain ⟨equal, rest⟩ := printTail_inj hr others others' closes closes tail
          rw [unnamed_inj equal]
          exact ⟨rfl, (List.cons.inj rest).2⟩

/-- A tuple is read. -/
theorem readable_tuple (hr : r.Telling) {items : List Expr} (h : ∀ e ∈ items, e.Made r)
    (readable : ∀ e ∈ items, e.Readable r) : (tuple items).Readable r := by
  intro e' first s t h' _ _ same
  have lead := lead_eq hr (.tuple h) h' same
  cases h' with
  | tuple hy =>
    rw [print_tuple, print_tuple, printRow_unnamed, printRow_unnamed, List.cons_append,
      List.cons_append, List.append_assoc, List.append_assoc, List.append_assoc,
      List.append_assoc] at same
    obtain ⟨rfl, rest⟩ := tupleRow_inj hr h readable hy (List.cons.inj same).2
    exact ⟨rfl, rest⟩
  | literal value => cases value <;> cases lead
  | _ => cases lead

/-- The arguments of a call are told apart by how many are positional, and by their names. -/
theorem entries_inj {args args' variadic variadic' : List Expr}
    {named named' : List (String × Expr)} (arity : args.length = args'.length)
    (h : entries args variadic named = entries args' variadic' named') :
    args = args' ∧ variadic = variadic' ∧ named = named' := by
  have split (args variadic : List Expr) (named : List (String × Expr)) :
      entries args variadic named =
        unnamed (args ++ variadic) ++ named.map fun arg => (some arg.1, arg.2) := by
    rw [entries, unnamed, List.map_append]
  have plain (es : List Expr) : ∀ x ∈ unnamed es, x.1.isNone = true :=
    List.forall_mem_map.2 fun _ _ => rfl
  have behind (named : List (String × Expr)) :
      ∀ x ∈ (named.map fun arg => (some arg.1, arg.2)).head?, x.1.isNone = false := by
    intro x hx
    cases named with
    | nil => cases hx
    | cons => cases hx; rfl
  rw [split, split] at h
  obtain ⟨positional, others⟩ := run_inj (plain _) (plain _) (behind _) (behind _) h
  obtain ⟨rfl, rfl⟩ := List.append_inj (unnamed_inj positional) arity
  refine ⟨rfl, rfl, List.map_injective_iff.2 ?_ others⟩
  rintro ⟨key, e⟩ ⟨key', e'⟩ same
  cases same
  rfl

/-- What holds of all arguments of a call holds of the row they stand in. -/
theorem forall_mem_entries {P : Option String × Expr → Prop} {args variadic : List Expr}
    {named : List (String × Expr)} (hargs : ∀ e ∈ args, P (none, e))
    (hvariadic : ∀ e ∈ variadic, P (none, e)) (hnamed : ∀ arg ∈ named, P (some arg.1, arg.2)) :
    ∀ x ∈ entries args variadic named, P x := by
  rw [entries, List.forall_mem_append, List.forall_mem_append, List.forall_mem_map,
    List.forall_mem_map, List.forall_mem_map]
  exact ⟨⟨hargs, hvariadic⟩, hnamed⟩

/-- The arguments of a call are made. -/
theorem made_entries (hr : r.Telling) {w : String} {k : Keyword} {args variadic : List Expr}
    {named : List (String × Expr)} (hk : r.keyword? w = some k)
    (keys : ∀ arg ∈ named, arg.1 ∈ k.named.map (·.1)) (hargs : ∀ e ∈ args, e.Made r)
    (hvariadic : ∀ e ∈ variadic, e.Made r) (hnamed : ∀ arg ∈ named, arg.2.Made r) :
    ∀ x ∈ entries args variadic named, MadeEntry r x := by
  have unnamed {e : Expr} (he : e.Made r) : MadeEntry r (none, e) :=
    ⟨he, fun _ hk => absurd hk (Option.not_mem_none _)⟩
  refine forall_mem_entries (fun e he => unnamed (hargs e he))
    (fun e he => unnamed (hvariadic e he)) fun arg harg => ⟨hnamed arg harg, fun key hkey => ?_⟩
  cases hkey
  obtain ⟨slot, hslot, same⟩ := List.mem_map.1 (keys arg harg)
  exact same ▸ hr.key hk slot hslot

/-- A call is read. -/
theorem readable_call (hr : r.Telling) {w : String} {k : Keyword} {args variadic : List Expr}
    {named : List (String × Expr)} (hk : r.keyword? w = some k)
    (made : (call k.target args variadic named).Made r)
    (arity : args.length = k.args.length)
    (entriesMade : ∀ x ∈ entries args variadic named, MadeEntry r x ∧ x.2.Readable r) :
    (call k.target args variadic named).Readable r := by
  intro e' first s t h' hs ht same
  have lead := (lead_eq hr made h' same).symm
  rcases bare_or_call lead with ⟨w', hw'⟩ | ⟨target, args', variadic', named', rfl⟩
  · obtain ⟨rfl, -⟩ := readable_of_bare hr h' hw' made ht hs same.symm
    cases hw'
  · cases h' with
    | @call w' k' _ _ _ hk' arity' keys' hargs' hvariadic' hnamed' =>
      rw [print_call, print_call, List.append_assoc, List.append_assoc, List.cons_append,
        List.cons_append, List.append_assoc, List.append_assoc] at same
      obtain ⟨targets, tail⟩ := run_inj (hr.target hk).2 (hr.target hk').2
        (stop_run_cons (by decide)) (stop_run_cons (by decide)) same
      rw [String.toList_inj] at targets
      obtain ⟨rows, rest⟩ := row_inj hr entriesMade
        (made_entries hr hk' keys' hargs' hvariadic' hnamed') (.inl rfl) (.inl rfl)
        (List.cons.inj tail).2
      have lengths : args.length = args'.length := by rw [arity, arity', hr.arity hk hk' targets]
      obtain ⟨rfl, rfl, rfl⟩ := entries_inj lengths rows
      rw [targets]
      exact ⟨rfl, (List.cons.inj rest).2⟩

/-- **What a script means is read off the front of a row.** -/
theorem Made.readable (hr : r.Telling) {e : Expr} (h : e.Made r) : e.Readable r := by
  induction h with
  | literal value =>
    cases value with
    | none | bool => exact readable_of_bare hr (.literal _) rfl
    | int n => exact readable_int hr n
    | str text => exact readable_str hr text
  | role x => exact readable_of_bare hr (.role x) rfl
  | name letters => exact readable_name hr letters
  | list made ih => exact readable_list hr made ih
  | tuple made ih => exact readable_tuple hr made ih
  | call hk arity keys hargs hvariadic hnamed iha ihv ihn =>
    have made := made_entries hr hk keys hargs hvariadic hnamed
    have readable : ∀ x ∈ entries _ _ _, x.2.Readable r := forall_mem_entries iha ihv ihn
    exact readable_call hr hk (.call hk arity keys hargs hvariadic hnamed) arity
      fun x hx => ⟨made x hx, readable x hx⟩

end Expr

/-- **Scripts that are shown alike mean the same**, with the usual vocabulary. -/
theorem Registry.rendered_unambiguous {text text' : String} {s s' : Script}
    (h : standard.compile text = .ok s) (h' : standard.compile text' = .ok s')
    (same : s.rendered = s'.rendered) : s.code = s'.code := by
  obtain ⟨code, hc, hs⟩ := Except.bind_eq_ok_iff.1 h
  obtain ⟨code', hc', hs'⟩ := Except.bind_eq_ok_iff.1 h'
  cases hs
  cases hs'
  have made := made_of_meaning hc
  have made' := made_of_meaning hc'
  have texts : code.print ++ [] = code'.print ++ [] := by
    rw [List.append_nil, List.append_nil]
    exact congrArg String.toList same
  exact (made.readable telling_standard made' .done .done texts).1

/-- Brackets around a whole script do not show, so they change nothing. -/
theorem Registry.rendered_unambiguous_brackets :
    ∃ s s', standard.compile "1 + 2" = .ok s ∧ standard.compile "(1 + 2)" = .ok s' ∧
      s.rendered = "add(1, 2)" ∧ s.code = s'.code := by
  let sum := Formula.node .add (.literal 1) (.literal 2)
  have valid : sum.Valid Formula.yard fun _ _ => 0 :=
    ⟨(by decide : Integer.InRange 1), (by decide : Integer.InRange 2)⟩
  have text : sum.text = "1 + 2" := by decide
  have bare : standard.meaning "1 + 2" = .ok sum.code := text ▸ Formula.meaning_text valid
  have tokens : Token.read "1 + 2" = .ok [.word "1", .word "+", .word "2"] := by cbv
  have tokens' : Token.read "(1 + 2)" =
      .ok [.group [.word "1", .word "+", .word "2"] "1 + 2"] := by cbv
  have bracketed : standard.meaning "(1 + 2)" = .ok sum.code := by
    rw [meaning, tokens] at bare
    rw [meaning, tokens']
    exact bare
  have h : standard.compile "1 + 2" = .ok ⟨"1 + 2", sum.code⟩ := by
    rw [compile, bare]
    rfl
  have h' : standard.compile "(1 + 2)" = .ok ⟨"(1 + 2)", sum.code⟩ := by
    rw [compile, bracketed]
    rfl
  exact ⟨_, _, h, h', by decide, rendered_unambiguous h h' rfl⟩

end Tabletop
