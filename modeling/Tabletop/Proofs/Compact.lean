/-
# The compact form: a keyword up against its operand

A keyword of one character may stand up against its operand: `-x` is split into `-` and
`x` once no keyword of that name is found.  The split is made of a word that stands alone,
and of a word only.  A word with a dot that does not start like a number has been read as a
chain before that, so `-x.HP` is the path of `-x`, which nobody splits.

If the two together are no chain, they read as one word, what is split off reads as the
operand did (`Compact.split?_eq`), and two tokens mean the same whether or not the lone
words among them would be split (`Compile.token_means`): the compact form means the spaced
one (`Compile.group_attached`).  If they are a chain, and no part of it is a keyword, they
mean a tuple, or nothing, while a keyword with a blank behind it makes a call or is at fault
as one (`Compile.group_spaced`, `Compile.group_chain`).  Both halves are in
`Registry.compact_exact`.
-/

import Tabletop.Proofs.Binding
import Tabletop.Proofs.Grammar

namespace Tabletop

open Compile

/-- A keyword of one character with its operand behind it. -/
def attached (k : Char) (w : String) : String := String.ofList (k :: w.toList)

/-- A keyword of one character and its operand, with a blank between them. -/
def spaced (k : Char) (w : String) : String := String.ofList (k :: ' ' :: w.toList)

/-- A keyword of one character and an operand that is one word or one chain; written
together they are no keyword. -/
structure Compact (r : Registry) (k : Char) (w : String) : Prop where
  bare : endsWord k = false ∧ k ≠ '.'
  keyword : r.isKeyword (String.ofList [k]) = true
  ne : w ≠ ""
  letters : ∀ c ∈ w.toList, endsWord c = false
  operand : ∃ t, Word.Means w.toList t
  fresh : r.isKeyword (attached k w) = false

/-- In brackets, two texts mean the same as parts of a script. -/
def Registry.SameInside (r : Registry) (a b : String) : Prop :=
  ∃ t t', Reader.Reads ('(' :: a.toList ++ [')']) [t] ∧
    Reader.Reads ('(' :: b.toList ++ [')']) [t'] ∧
    Compile.token r (splitWord r) t = Compile.token r (splitWord r) t'

/-! ### Reading -/

/-- A chain has at least two parts. -/
theorem Word.exists_parts {w : List Char} (h : isChain w = true) :
    ∃ a b more, parts w = a :: b :: more := by
  have dot : '.' ∈ w := by
    simp only [isChain, Bool.and_eq_true, List.contains_iff_mem] at h
    exact h.1
  clear h
  induction w with
  | nil => cases dot
  | cons c w ih =>
    by_cases hc : c = '.'
    · subst hc
      obtain ⟨b, more, hw⟩ := List.exists_cons_of_ne_nil (parts_ne_nil w)
      exact ⟨[], b, more, congrArg _ hw⟩
    · obtain ⟨a, b, more, hw⟩ := ih ((List.mem_cons.1 dot).resolve_left (Ne.symm hc))
      exact ⟨c :: a, b, more, parts_cons hc hw⟩

namespace Compact

variable {r : Registry} {k : Char} {w : String} {t : Token}

theorem ne_nil (h : Compact r k w) : w.toList ≠ [] := by
  rw [ne_eq, String.toList_eq_nil_iff]
  exact h.ne

theorem reads_operand (h : Compact r k w) (ht : Word.Means w.toList t) :
    Reader.Reads w.toList [t] :=
  ht.reads h.ne_nil h.letters

theorem reads_spaced (h : Compact r k w) (ht : Word.Means w.toList t) :
    Reader.Reads (spaced k w).toList [.word (String.ofList [k]), t] := by
  have sign : Reader.Reads [k] [.word (String.ofList [k])] := by
    refine Word.Means.reads (.plain ?_) (List.cons_ne_nil _ _)
      (List.forall_mem_singleton.2 h.bare.1)
    simp [Word.isChain, Ne.symm h.bare.2]
  rw [spaced, String.toList_ofList]
  exact sign.append (h.reads_operand ht) (c := ' ') rfl

theorem reads_attached (h : Compact r k w) (ht : Word.Means (attached k w).toList t) :
    Reader.Reads (attached k w).toList [t] := by
  refine ht.reads ?_ ?_ <;> rw [attached, String.toList_ofList]
  · exact List.cons_ne_nil _ _
  · exact List.forall_mem_cons.2 ⟨h.bare.1, h.letters⟩

/-- The compact form is split behind its keyword, and the rest reads as the operand. -/
theorem split?_eq (h : Compact r k w) (ht : Word.Means w.toList t) :
    split? r (attached k w) = some (.ok [.word (String.ofList [k]), t]) := by
  obtain ⟨next, rest, hw⟩ := List.exists_cons_of_ne_nil h.ne_nil
  have letters : (attached k w).toList = k :: next :: rest := by
    rw [attached, String.toList_ofList, hw]
  have others : tokens? (next :: rest) = .ok [t] := by
    rw [← hw]
    exact (h.reads_operand ht).tokens?_eq (List.cons_ne_nil _ _)
  rw [split?, letters]
  simp only [h.fresh, h.keyword, others]
  rfl

end Compact

namespace Compile

variable {r : Registry} {lone : String → Bool → Option Compiled} {root : Bool}

theorem group_of_two (t u : Token) (ts : List Token) :
    group r lone (t :: u :: ts) root = assemble r (parts r lone (t :: u :: ts)) root := by
  simp only [group, parts]

/-- The part a bare word is. -/
def Part.bare (w : List Char) : Part := ⟨.word (String.ofList w), .ok (.ofWord (String.ofList w))⟩

/-- A group of at least two words is put together from them, and none of them is split. -/
theorem group_words {ws : List (List Char)} (two : ∃ a b more, ws = a :: b :: more) :
    group r lone (ws.map fun w => .word (String.ofList w)) root =
      assemble r (ws.map Part.bare) root := by
  have bare : parts r lone (ws.map fun w => .word (String.ofList w)) = ws.map Part.bare := by
    rw [parts_eq_map, List.map_map]
    rfl
  rw [← bare]
  obtain ⟨a, b, more, rfl⟩ := two
  exact group_of_two ..

/-- What a word means does not depend on how lone words are split. -/
theorem token_means {w : List Char} {t : Token} (h : Word.Means w t)
    (lone lone' : String → Bool → Option Compiled) : token r lone t = token r lone' t := by
  cases h with
  | plain => rfl
  | chain chained =>
    -- a chain has two words at least, so none of them stands alone
    have two := Word.exists_parts chained
    rw [token, token, group_words two, group_words two]

/-- **A lone word means what it is split into.** -/
theorem group_attached {k : Char} {w : String} {t : Token} (h : Compact r k w)
    (ht : Word.Means w.toList t) :
    group r (splitWord r) [.word (attached k w)] root =
      group r (splitWord r) [.word (String.ofList [k]), t] root := by
  have split : splitWord r (attached k w) root =
      some (whole r [.word (String.ofList [k]), t] root) := by
    rw [splitWord, h.split?_eq ht]
    rfl
  rw [group, split]
  show group r _ _ root = _
  rw [group_of_two, group_of_two, parts, parts, parts, parts, parts, parts,
    token_means ht (fun _ _ => none) (splitWord r)]
  rfl

/-! ### What a group with a keyword may come to -/

/-- The faults of a call. -/
inductive CallFault : SyntaxError → Prop
  | missing (name : String) (slot : Slot) : CallFault (.missingArgument name slot)
  | unused (name : String) (slots : List Slot) : CallFault (.unusedArguments name slots)
  | many (words : List String) : CallFault (.tooManyKeywords words)

/-- A result holds, or a call is at fault. -/
def Ends {α : Type} (P : α → Prop) : Except SyntaxError α → Prop
  | .ok a => P a
  | .error e => CallFault e

theorem Ends.bind {α β : Type} {P : α → Prop} {Q : β → Prop} {x : Except SyntaxError α}
    {f : α → Except SyntaxError β} (hx : Ends P x) (hf : ∀ a, P a → Ends Q (f a)) :
    Ends Q (x >>= f) := by
  cases x with
  | ok a => exact hf a hx
  | error e => exact hx

theorem Ends.mono {α : Type} {P Q : α → Prop} {x : Except SyntaxError α} (hx : Ends P x)
    (h : ∀ a, P a → Q a) : Ends Q x := by
  cases x with
  | ok a => exact h a hx
  | error e => exact hx

theorem mapM_ends {α β : Type} {f : α → Except SyntaxError β} {l : List α}
    (h : ∀ a ∈ l, Ends (fun _ => True) (f a)) : Ends (fun _ => True) (l.mapM f) := by
  induction l with
  | nil => exact trivial
  | cons a l ih =>
    obtain ⟨first, others⟩ := List.forall_mem_cons.1 h
    rw [List.mapM_cons]
    exact first.bind fun _ _ => (ih others).bind fun _ _ => trivial

/-- The code of a part is at most a fault of a call. -/
def Part.Sound (part : Part) : Prop := Ends (fun _ => True) part.code

/-- The parts a call has left are sound. -/
def Unclaimed.Sound (left : Unclaimed) : Prop := ∀ s ∈ left, s.2.Sound

variable {k : Keyword} {left : Unclaimed}

theorem argument_ends {part : Part} (sound : part.Sound) (slot : Slot) :
    Ends (fun _ => True) (argument k slot part) := by
  rw [argument]
  split
  · exact trivial
  · exact sound

theorem claim_ends (sound : left.Sound) (slot : Slot) :
    Ends (fun claimed => claimed.2.Sound) (claim k slot left) := by
  rw [claim]
  split
  · next part found =>
    obtain ⟨before, after, split, -⟩ := List.lookup_eq_some_iff.1 found
    have there : (slot, part) ∈ left := split ▸ List.mem_append_right _ List.mem_cons_self
    exact (argument_ends (sound _ there) slot).bind fun _ _ s hs =>
      sound s (List.mem_of_mem_filter hs)
  · exact sound

theorem claimAll_ends (sound : left.Sound) (slots : List Slot) :
    Ends (fun claimed => claimed.2.Sound) (claimAll k slots left) := by
  induction slots generalizing left with
  | nil => exact sound
  | cons slot slots ih =>
    rw [claimAll]
    refine (claim_ends sound slot).bind ?_
    rintro ⟨arg, left⟩ sound
    cases arg with
    | none => exact .missing _ _
    | some e => exact (ih sound).bind fun _ sound => sound

theorem claimNamed_ends (sound : left.Sound) (slots : List (String × Slot)) :
    Ends (fun claimed => claimed.2.Sound) (claimNamed k slots left) := by
  induction slots generalizing left with
  | nil => exact sound
  | cons slot slots ih =>
    rw [claimNamed]
    refine (claim_ends sound slot.2).bind ?_
    rintro ⟨arg, left⟩ sound
    refine (ih sound).bind ?_
    rintro ⟨es, left⟩ rest
    cases arg <;> exact rest

/-- An expression is a call. -/
def IsCall (e : Expr) : Prop :=
  ∃ target args variadic named, e = .call target args variadic named

/-- **A call ends with a call**, or it is at fault. -/
theorem call_ends {ps : List Part} (sound : ∀ part ∈ ps, part.Sound) (k : Keyword) (p : Nat) :
    Ends IsCall (call k ps p) := by
  have start : (around ps p).Sound := by
    intro s hs
    obtain ⟨⟨part, i⟩, hpart, rfl⟩ := List.mem_map.1 hs
    exact sound part (List.fst_mem_of_mem_zipIdx (List.mem_of_mem_filter hpart))
  rw [call]
  refine (claimAll_ends start _).bind ?_
  rintro ⟨args, left⟩ sound
  refine (claimNamed_ends sound _).bind ?_
  rintro ⟨named, left⟩ sound
  dsimp only
  split
  · exact ⟨_, _, _, _, rfl⟩
  · split
    · have rest := mapM_ends fun s hs => argument_ends (k := k) (sound s hs) s.1
      exact rest.bind fun _ _ => ⟨_, _, _, _, rfl⟩
    · exact .unused _ _

/-- A group with a keyword ends with a call, or it is at fault. -/
theorem assemble_keyed {ps : List Part} (sound : ∀ part ∈ ps, part.Sound) (root : Bool)
    (keyed : keywordsIn r ps ≠ []) : Ends IsCall (assemble r ps root) := by
  rw [assemble]
  split
  · next unkeyed => exact absurd unkeyed keyed
  · exact call_ends sound ..
  · exact .many _

/-- Inside a script each group of sound parts is at most at fault as a call. -/
theorem assemble_ends {ps : List Part} (sound : ∀ part ∈ ps, part.Sound) :
    Ends (fun _ => True) (assemble r ps false) := by
  by_cases keyed : keywordsIn r ps = []
  · rw [assemble, keyed]
    exact (mapM_ends sound).bind fun _ _ => trivial
  · exact (assemble_keyed sound false keyed).mono fun _ _ => trivial

/-- What a word means is at most at fault as a call. -/
theorem token_ends {w : List Char} {t : Token} (h : Word.Means w t) :
    Ends (fun _ => True) (token r lone t) := by
  cases h with
  | plain => exact trivial
  | chain chained =>
    rw [token, group_words (Word.exists_parts chained)]
    refine assemble_ends fun part hpart => ?_
    obtain ⟨_, -, rfl⟩ := List.mem_map.1 hpart
    exact trivial

/-- **The spaced form is a call**, or at fault as one. -/
theorem group_spaced {k : Char} {w : String} {t : Token} (h : Compact r k w)
    (ht : Word.Means w.toList t) (root : Bool) :
    Ends IsCall (group r (splitWord r) [.word (String.ofList [k]), t] root) := by
  obtain ⟨key, hkey⟩ := Option.isSome_iff_exists.1 (Registry.isKeyword_eq r _ ▸ h.keyword)
  rw [group_of_two]
  refine assemble_keyed ?_ root ?_
  · rw [parts, parts, parts]
    exact List.forall_mem_cons.2 ⟨trivial, List.forall_mem_singleton.2 (token_ends ht)⟩
  · have here : keywordAt? r (.word (String.ofList [k]), 0) = some (0, String.ofList [k], key) := by
      rw [keywordAt?, hkey, Option.map_some]
    rw [keywordsIn_parts]
    exact List.ne_nil_of_mem (List.mem_filterMap.2 ⟨_, List.mem_cons_self, here⟩)

/-- **A chain without a keyword is no call.** -/
theorem group_chain {w : List Char} {t : Token} (h : Word.Means w t)
    (chained : Word.isChain w = true)
    (unkeyed : ∀ part ∈ Word.parts w, r.isKeyword (String.ofList part) = false) (root : Bool) :
    ¬Ends IsCall (group r lone [t] root) := by
  have keyless : keywordsIn r ((Word.parts w).map Part.bare) = [] := by
    rw [keywordsIn, List.filterMap_eq_nil_iff]
    rintro ⟨part, i⟩ hpart
    obtain ⟨word, hword, rfl⟩ := List.mem_map.1 (List.fst_mem_of_mem_zipIdx hpart)
    have missing := unkeyed word hword
    rw [Registry.isKeyword_eq, Option.isSome_eq_false_iff, Option.isNone_iff_eq_none] at missing
    exact congrArg (Option.bind · _) missing
  have codes : ((Word.parts w).map Part.bare).mapM (·.code) =
      .ok ((Word.parts w).map fun part => .ofWord (String.ofList part)) := by
    rw [Except.mapM_eq_ok_iff, List.forall₂_map_left_iff, List.forall₂_map_right_iff]
    exact List.forall₂_same.2 fun _ _ => rfl
  cases h with
  | plain single =>
    rw [chained] at single
    cases single
  | chain =>
    rw [group, group_words (Word.exists_parts chained), assemble, keyless]
    cases root with
    | true =>
      intro fault
      cases fault
    | false =>
      simp only [Bool.false_eq_true, if_false, codes]
      rintro ⟨_, _, _, _, tuple⟩
      cases tuple

end Compile

namespace Compact

variable {r : Registry} {k : Char} {w : String}

theorem meaning_spaced (h : Compact r k w) {t : Token} (ht : Word.Means w.toList t) :
    r.meaning (spaced k w) = group r (splitWord r) [.word (String.ofList [k]), t] true := by
  rw [Registry.meaning, Token.read, (h.reads_spaced ht).tokens?_eq (List.cons_ne_nil _ _)]
  rfl

theorem meaning_attached (h : Compact r k w) {t : Token} (ht : Word.Means (attached k w).toList t) :
    r.meaning (attached k w) = group r (splitWord r) [t] true := by
  rw [Registry.meaning, Token.read, (h.reads_attached ht).tokens?_eq (List.cons_ne_nil _ _)]
  rfl

/-- Around a text that reads as tokens, a bracket reads as their group and nothing else. -/
theorem reads_bracket_iff {text : List Char} {ts : List Token} (reads : Reader.Reads text ts)
    (ne : ts ≠ []) (u : Token) : Reader.Reads ('(' :: text ++ [')']) [u] ↔
      u = .group ts (String.ofList (trimRead text.reverse)) := by
  have bracket := reads.inBracket .round fun _ => ne
  constructor
  · intro hu
    have same := (hu.tokens?_eq (List.cons_ne_nil _ _)).symm.trans
      (bracket.tokens?_eq (List.cons_ne_nil _ _))
    cases same
    rfl
  · rintro rfl
    exact bracket

theorem sameInside_iff (h : Compact r k w) {t t' : Token} (ht : Word.Means w.toList t)
    (ht' : Word.Means (attached k w).toList t') :
    r.SameInside (attached k w) (spaced k w) ↔
      group r (splitWord r) [t'] false =
        group r (splitWord r) [.word (String.ofList [k]), t] false := by
  simp only [Registry.SameInside,
    reads_bracket_iff (h.reads_attached ht') (List.cons_ne_nil _ _),
    reads_bracket_iff (h.reads_spaced ht) (List.cons_ne_nil _ _)]
  constructor
  · rintro ⟨_, _, rfl, rfl, same⟩
    exact same
  · exact fun same => ⟨_, _, rfl, rfl, same⟩

end Compact

/-- **The compact form means the spaced one unless it is a chain.**  Where a keyword of one
character and its operand, one word or one chain, are no chain together, they mean the same
with and without a blank between them, as a script and in brackets inside of one, whatever
that is: the same expression or the same fault.

Where they are a chain of which no part is empty or a keyword, they never do: neither as a
script nor in brackets. -/
theorem Registry.compact_exact {r : Registry} {k : Char} {w : String} (h : Compact r k w) :
    (Word.isChain (attached k w).toList = false →
      r.meaning (attached k w) = r.meaning (spaced k w) ∧
        r.SameInside (attached k w) (spaced k w)) ∧
    (Word.isChain (attached k w).toList = true →
      (∀ part ∈ Word.parts (attached k w).toList,
        part ≠ [] ∧ r.isKeyword (String.ofList part) = false) →
      r.meaning (attached k w) ≠ r.meaning (spaced k w) ∧
        ¬r.SameInside (attached k w) (spaced k w)) := by
  obtain ⟨t, ht⟩ := h.operand
  refine ⟨fun single => ?_, fun chained unkeyed => ?_⟩
  · have means := Word.Means.plain single
    rw [String.ofList_toList] at means
    refine ⟨?_, (h.sameInside_iff ht means).2 (group_attached h ht)⟩
    rw [h.meaning_attached means, h.meaning_spaced ht, group_attached h ht]
  · obtain ⟨t', means⟩ : ∃ t', Word.Means (attached k w).toList t' :=
      ⟨_, .chain chained fun empty => (unkeyed _ empty).1 rfl⟩
    have apart (root : Bool) : group r (splitWord r) [t'] root ≠
        group r (splitWord r) [.word (String.ofList [k]), t] root := by
      intro same
      have call := group_spaced h ht root
      rw [← same] at call
      exact group_chain means chained (fun part hpart => (unkeyed part hpart).2) root call
    rw [h.meaning_attached means, h.meaning_spaced ht, ne_eq, h.sameInside_iff ht means]
    exact ⟨apart true, apart false⟩

/-- `-` and a path are a keyword and its operand. -/
theorem compact_path : Compact .standard '-' "x.HP" where
  bare := ⟨rfl, by decide⟩
  keyword := by rfl
  ne := by decide
  letters := forall_mem_of_all rfl
  operand := ⟨_, .chain rfl (by decide)⟩
  fresh := by rfl

/-- With the usual vocabulary, `-x` means `- x`, and `-x.HP` does not mean `- x.HP`. -/
theorem Registry.compact_exact_minus :
    (standard.meaning "-x" = standard.meaning "- x" ∧ standard.SameInside "-x" "- x") ∧
      standard.meaning "-x.HP" ≠ standard.meaning "- x.HP" ∧
      ¬standard.SameInside "-x.HP" "- x.HP" := by
  have word : Compact .standard '-' "x" := {
    bare := ⟨rfl, by decide⟩
    keyword := by rfl
    ne := by decide
    letters := List.forall_mem_singleton.2 rfl
    operand := ⟨_, .plain rfl⟩
    fresh := by rfl }
  have unkeyed : ∀ part ∈ Word.parts (attached '-' "x.HP").toList,
      part ≠ [] ∧ standard.isKeyword (String.ofList part) = false :=
    List.forall_mem_cons.2 ⟨⟨by decide, by rfl⟩, List.forall_mem_singleton.2 ⟨by decide, by rfl⟩⟩
  exact ⟨(compact_exact word).1 rfl, (compact_exact compact_path).2 rfl unkeyed⟩

/-- `-x.HP` is a path, and none that a script may consist of, where `- x.HP` is a
subtraction. -/
theorem Registry.meaning_minus_path :
    Compact .standard '-' "x.HP" ∧
      standard.meaning "-x.HP" = .error .noKeyword ∧
      standard.meaning "- x.HP" =
        .ok (.call "sub" [.literal (.int 0), .tuple [.name "x", .name "HP"]] [] []) ∧
      standard.meaning "1 + (-x.HP)" =
        .ok (.call "add" [.literal (.int 1), .tuple [.name "-x", .name "HP"]] [] []) ∧
      standard.meaning "1 + (- x.HP)" =
        .ok (.call "add" [.literal (.int 1),
          .call "sub" [.literal (.int 0), .tuple [.name "x", .name "HP"]] [] []] [] []) :=
  ⟨compact_path, by cbv, by cbv, by cbv, by cbv⟩

end Tabletop
