/-
# Binding: a group with one keyword means what is allotted

The tokens a call has not taken yet are at every moment the neighbours of its keyword
without those at the slots named so far (`unclaimed`), so the loops of the call are
followed with the slots named so far.  They fill each slot with what it is allotted
(`claimAll_eq_ok_iff`, `claimNamed_eq_ok_iff`), and a group with one keyword means the
call of all that (`OneKeyword.group_eq_call`, `call_eq_ok_iff`).
-/

import Tabletop.Proofs.Allotment
import Tabletop.Proofs.Effect
import Tabletop.Proofs.Vocabulary
import Mathlib

namespace Tabletop

/-- A list is run through to its end if and only if each element gives a result. -/
theorem Except.mapM_eq_ok_iff {ε α β : Type} {f : α → Except ε β} {l : List α} {bs : List β} :
    l.mapM f = .ok bs ↔ List.Forall₂ (fun a b => f a = .ok b) l bs := by
  induction l generalizing bs with
  | nil =>
    rw [List.mapM_nil, List.forall₂_nil_left_iff]
    exact ⟨fun h => by cases h; rfl, fun h => by rw [h]; rfl⟩
  | cons a l ih =>
    simp only [List.mapM_cons, bind_eq_ok_iff, ih, List.forall₂_cons_left_iff]
    constructor
    · rintro ⟨b, hb, bs', hbs, h⟩
      cases h
      exact ⟨b, bs', hb, hbs, rfl⟩
    · rintro ⟨b, bs', hb, hbs, rfl⟩
      exact ⟨b, hb, bs', hbs, rfl⟩

/-- A row of results exists if and only if each element has one. -/
theorem exists_forall₂_iff {α β : Type} {R : α → β → Prop} {l : List α} :
    (∃ bs, List.Forall₂ R l bs) ↔ ∀ a ∈ l, ∃ b, R a b := by
  induction l with
  | nil => exact ⟨fun _ _ h => (nomatch h), fun _ => ⟨[], .nil⟩⟩
  | cons a l ih =>
    rw [List.forall_mem_cons, ← ih]
    constructor
    · rintro ⟨_, h⟩
      cases h with
      | cons hb hbs => exact ⟨⟨_, hb⟩, _, hbs⟩
    · rintro ⟨⟨b, hb⟩, bs, hbs⟩
      exact ⟨b :: bs, .cons hb hbs⟩

namespace Compile

/-! ### The loops of a call -/

section Call

variable {r : Registry} {lone : String → Bool → Option Compiled} {k : Keyword}
  {tokens : List Token} {p : Nat}

theorem parts_eq_map (tokens : List Token) :
    parts r lone tokens = tokens.map fun t => ⟨t, token r lone t⟩ := by
  induction tokens with
  | nil => rfl
  | cons t tokens ih => rw [parts, ih, List.map_cons]

/-- The tokens a call has not taken after it went through some slots. -/
def unclaimed (r : Registry) (lone : String → Bool → Option Compiled) (tokens : List Token)
    (p : Nat) (slots : List Slot) : Unclaimed :=
  (free tokens p slots).map fun (slot, t) => (slot, ⟨t, token r lone t⟩)

theorem around_parts : around (parts r lone tokens) p = unclaimed r lone tokens p [] := by
  rw [unclaimed, free_nil, parts_eq_map, around, neighbours, List.zipIdx_map, List.filter_map,
    List.map_map, List.map_map]
  rfl

theorem argument_eq (slot : Slot) (t : Token) :
    argument k slot ⟨t, token r lone t⟩ = (Source.taken slot t).code r lone k := by
  simp only [argument, Source.code, List.contains_iff_mem]

theorem mem_unclaimed {slots : List Slot} {slot : Slot} {part : Part} :
    (slot, part) ∈ unclaimed r lone tokens p slots ↔
      ∃ t, (slot, t) ∈ free tokens p slots ∧ part = ⟨t, token r lone t⟩ := by
  simp only [unclaimed, List.mem_map, Prod.exists, Prod.mk.injEq]
  constructor
  · rintro ⟨_, t, ht, rfl, rfl⟩
    exact ⟨t, ht, rfl⟩
  · rintro ⟨t, ht, rfl⟩
    exact ⟨slot, t, ht, rfl, rfl⟩

/-- A free token is found at its slot. -/
theorem lookup_unclaimed {slots : List Slot} {slot : Slot} {t : Token}
    (h : (slot, t) ∈ free tokens p slots) :
    (unclaimed r lone tokens p slots).lookup slot = some ⟨t, token r lone t⟩ := by
  cases found : (unclaimed r lone tokens p slots).lookup slot with
  | none =>
    have away := List.lookup_eq_none_iff.1 found _ (mem_unclaimed.2 ⟨t, h, rfl⟩)
    simp at away
  | some part =>
    obtain ⟨before, after, split, -⟩ := List.lookup_eq_some_iff.1 found
    have there : (slot, part) ∈ unclaimed r lone tokens p slots := by
      rw [split]
      exact List.mem_append_right _ List.mem_cons_self
    obtain ⟨t', h', rfl⟩ := mem_unclaimed.1 there
    rw [neighbours_inj (mem_free.1 h').1 (mem_free.1 h).1]

theorem lookup_unclaimed_eq_none {slots : List Slot} {slot : Slot}
    (h : ∀ t, (slot, t) ∉ free tokens p slots) :
    (unclaimed r lone tokens p slots).lookup slot = none := by
  rw [List.lookup_eq_none_iff]
  rintro ⟨s, part⟩ there
  obtain ⟨t, ht, -⟩ := mem_unclaimed.1 there
  rw [bne_iff_ne]
  rintro rfl
  exact h t ht

/-- What is left without a slot is what is left once that slot is named too. -/
theorem filter_unclaimed (slots : List Slot) (slot : Slot) :
    ((unclaimed r lone tokens p slots).filter fun (s, _) => s ≠ slot) =
      unclaimed r lone tokens p (slots ++ [slot]) := by
  rw [unclaimed, unclaimed, free_concat, List.filter_map]
  rfl

/-- **One slot.**  It takes what it gets, if that has a meaning. -/
theorem claim_eq_ok_iff {slots : List Slot} {slot : Slot} {o : Option Expr} {left : Unclaimed} :
    claim k slot (unclaimed r lone tokens p slots) = .ok (o, left) ↔
      Option.Rel (fun s e => s.code r lone k = .ok e) (source? k tokens p slots slot) o ∧
        left = unclaimed r lone tokens p (slots ++ [slot]) := by
  obtain ⟨t, hs, ht⟩ | ⟨hs, none⟩ := source?_cases tokens p k slots slot
  · rw [claim, lookup_unclaimed ht, hs]
    simp only [argument_eq, filter_unclaimed, Except.bind_eq_ok_iff]
    constructor
    · rintro ⟨e, he, h⟩
      cases h
      exact ⟨.some he, rfl⟩
    · rintro ⟨he, rfl⟩
      cases he with
      | some he => exact ⟨_, he, rfl⟩
  · have same : unclaimed r lone tokens p (slots ++ [slot]) = unclaimed r lone tokens p slots := by
      rw [unclaimed, free_concat_of_not_mem none, unclaimed]
    rw [claim, lookup_unclaimed_eq_none none, hs, same]
    cases k.defaults[slot]? with
    | none =>
      constructor
      · intro h
        cases h
        exact ⟨.none, rfl⟩
      · rintro ⟨h, rfl⟩
        cases h
        rfl
    | some value =>
      constructor
      · intro h
        cases h
        exact ⟨.some rfl, rfl⟩
      · rintro ⟨h, rfl⟩
        cases h with
        | some h =>
          cases h
          rfl

theorem claim_of_none {slots : List Slot} {slot : Slot}
    (hs : source? k tokens p slots slot = none) :
    claim k slot (unclaimed r lone tokens p slots) =
      .ok (none, unclaimed r lone tokens p (slots ++ [slot])) :=
  claim_eq_ok_iff.2 ⟨by rw [hs]; exact .none, rfl⟩

theorem claim_of_some {slots : List Slot} {slot : Slot} {s : Source} {e : Expr}
    (hs : source? k tokens p slots slot = some s) (he : s.code r lone k = .ok e) :
    claim k slot (unclaimed r lone tokens p slots) =
      .ok (some e, unclaimed r lone tokens p (slots ++ [slot])) :=
  claim_eq_ok_iff.2 ⟨by rw [hs]; exact .some he, rfl⟩

/-- **The positional slots.**  Each of them has to get something. -/
theorem claimAll_eq_ok_iff {earlier slots : List Slot} {es : List Expr} {left : Unclaimed} :
    claimAll k slots (unclaimed r lone tokens p earlier) = .ok (es, left) ↔
      List.Forall₂ (fun s e => ∃ source, s = some source ∧ source.code r lone k = .ok e)
        (sources k tokens p earlier slots) es ∧
      left = unclaimed r lone tokens p (earlier ++ slots) := by
  induction slots generalizing earlier es left with
  | nil =>
    rw [List.append_nil]
    constructor
    · intro h
      cases h
      exact ⟨.nil, rfl⟩
    · rintro ⟨h, rfl⟩
      cases h
      rfl
  | cons slot slots ih =>
    have row : earlier ++ slot :: slots = earlier ++ [slot] ++ slots := List.append_cons ..
    rw [claimAll, sources_cons, row]
    constructor
    · intro h
      obtain ⟨⟨o, left₁⟩, hclaim, h⟩ := Except.bind_eq_ok_iff.1 h
      obtain ⟨hs, rfl⟩ := claim_eq_ok_iff.1 hclaim
      generalize source? k tokens p earlier slot = s at hs ⊢
      cases hs with
      | none => cases h
      | some he =>
        obtain ⟨⟨es, left₂⟩, hslots, h⟩ := Except.bind_eq_ok_iff.1 h
        cases h
        obtain ⟨hes, rfl⟩ := ih.1 hslots
        exact ⟨.cons ⟨_, rfl, he⟩ hes, rfl⟩
    · rintro ⟨h, rfl⟩
      cases h with
      | cons h hes =>
        obtain ⟨s, hs, he⟩ := h
        refine Except.bind_eq_ok_iff.2 ⟨_, claim_of_some hs he, ?_⟩
        exact Except.bind_eq_ok_iff.2 ⟨_, ih.2 ⟨hes, rfl⟩, rfl⟩

/-- **The named slots.**  Those that get nothing are left out. -/
theorem claimNamed_eq_ok_iff {earlier : List Slot} {slots : List (String × Slot)}
    {es : List (String × Expr)} {left : Unclaimed} :
    claimNamed k slots (unclaimed r lone tokens p earlier) = .ok (es, left) ↔
      List.Forall₂ (fun s e => s.1 = e.1 ∧ s.2.code r lone k = .ok e.2)
        (filled ((slots.map (·.1)).zip (sources k tokens p earlier (slots.map (·.2))))) es ∧
      left = unclaimed r lone tokens p (earlier ++ slots.map (·.2)) := by
  induction slots generalizing earlier es left with
  | nil =>
    rw [List.map_nil, List.map_nil, List.append_nil]
    constructor
    · intro h
      cases h
      exact ⟨.nil, rfl⟩
    · rintro ⟨h, rfl⟩
      cases h
      rfl
  | cons entry slots ih =>
    obtain ⟨name, slot⟩ := entry
    have row : earlier ++ slot :: slots.map (·.2) = earlier ++ [slot] ++ slots.map (·.2) :=
      List.append_cons ..
    rw [claimNamed, List.map_cons, List.map_cons, sources_cons, List.zip_cons_cons, row]
    constructor
    · intro h
      obtain ⟨⟨o, left₁⟩, hclaim, h⟩ := Except.bind_eq_ok_iff.1 h
      obtain ⟨hs, rfl⟩ := claim_eq_ok_iff.1 hclaim
      obtain ⟨⟨es₁, left₂⟩, hslots, h⟩ := Except.bind_eq_ok_iff.1 h
      obtain ⟨hes, rfl⟩ := ih.1 hslots
      generalize source? k tokens p earlier slot = s at hs ⊢
      cases hs with
      | none =>
        cases h
        exact ⟨hes, rfl⟩
      | some he =>
        cases h
        exact ⟨.cons ⟨rfl, he⟩ hes, rfl⟩
    · rintro ⟨h, rfl⟩
      cases hs : source? k tokens p earlier slot with
      | none =>
        rw [hs] at h
        refine Except.bind_eq_ok_iff.2 ⟨_, claim_of_none hs, ?_⟩
        exact Except.bind_eq_ok_iff.2 ⟨_, ih.2 ⟨h, rfl⟩, rfl⟩
      | some s =>
        rw [hs] at h
        cases h with
        | cons h hes =>
          obtain ⟨rfl, he⟩ := h
          refine Except.bind_eq_ok_iff.2 ⟨_, claim_of_some hs he, ?_⟩
          exact Except.bind_eq_ok_iff.2 ⟨_, ih.2 ⟨hes, rfl⟩, rfl⟩

/-- The call made of what the slots get. -/
inductive Allotment.Makes (r : Registry) (lone : String → Bool → Option Compiled) (k : Keyword)
    (a : Allotment) : Expr → Prop
  | call {args variadic : List Expr} {named : List (String × Expr)} :
      List.Forall₂ (fun s e => ∃ source, s = some source ∧ source.code r lone k = .ok e)
        a.args args →
      List.Forall₂ (fun s e => s.1 = e.1 ∧ s.2.code r lone k = .ok e.2) (filled a.named) named →
      List.Forall₂ (fun (slot, t) e => (Source.taken slot t).code r lone k = .ok e)
        a.rest variadic →
      Makes r lone k a (.call k.target args variadic named)

/-- **A call.**  What the slots of the keyword get makes it; something may be left over only
if the keyword is variadic. -/
theorem call_eq_ok_iff {code : Expr} :
    call k (parts r lone tokens) p = .ok code ↔
      (allot k tokens p).Makes r lone k code ∧
        ((allot k tokens p).rest = [] ∨ k.variadic = true) := by
  have left : unclaimed r lone tokens p ([] ++ k.args ++ k.named.map (·.2)) =
      (allot k tokens p).rest.map fun (slot, t) => (slot, ⟨t, token r lone t⟩) := rfl
  rw [call, around_parts]
  constructor
  · intro h
    obtain ⟨⟨args, left₁⟩, all, h⟩ := Except.bind_eq_ok_iff.1 h
    obtain ⟨hargs, rfl⟩ := claimAll_eq_ok_iff.1 all
    obtain ⟨⟨named, left₂⟩, some, h⟩ := Except.bind_eq_ok_iff.1 h
    obtain ⟨hnamed, rfl⟩ := claimNamed_eq_ok_iff.1 some
    simp only [left, List.isEmpty_iff, List.map_eq_nil_iff] at h
    split at h
    · rename_i empty
      cases h
      exact ⟨.call hargs hnamed (by rw [empty]; exact .nil), .inl empty⟩
    · split at h
      · rename_i variadic
        obtain ⟨es, hes, h⟩ := Except.bind_eq_ok_iff.1 h
        cases h
        rw [Except.mapM_eq_ok_iff, List.forall₂_map_left_iff] at hes
        simp only [argument_eq] at hes
        exact ⟨.call hargs hnamed hes, .inr variadic⟩
      · cases h
  · rintro ⟨⟨hargs, hnamed, hrest⟩, h⟩
    refine Except.bind_eq_ok_iff.2 ⟨_, claimAll_eq_ok_iff.2 ⟨hargs, rfl⟩, ?_⟩
    refine Except.bind_eq_ok_iff.2 ⟨_, claimNamed_eq_ok_iff.2 ⟨hnamed, rfl⟩, ?_⟩
    simp only [left, List.isEmpty_iff, List.map_eq_nil_iff]
    split
    · rename_i empty
      rw [empty] at hrest
      cases hrest
      rfl
    · rename_i filled
      rw [if_pos (h.resolve_left filled)]
      refine Except.bind_eq_ok_iff.2 ⟨_, ?_, rfl⟩
      rw [Except.mapM_eq_ok_iff, List.forall₂_map_left_iff]
      simp only [argument_eq]
      exact hrest

/-! ### A group with one keyword -/

/-- Position `p` of a row of tokens holds a keyword, and no other position does. -/
structure OneKeyword (r : Registry) (tokens : List Token) (p : Nat) (w : String) (k : Keyword) :
    Prop where
  word : tokens[p]? = some (.word w)
  keyword : r.keyword? w = some k
  only : ∀ i u, tokens[i]? = some (.word u) → r.isKeyword u = true → i = p

variable {w : String}

theorem OneKeyword.isKeyword (h : OneKeyword r tokens p w k) : r.isKeyword w = true := by
  rw [Registry.isKeyword_eq, h.keyword, Option.isSome_some]

/-- A group with a keyword is put together from its parts. -/
theorem OneKeyword.group_eq (h : OneKeyword r tokens p w k) {root : Bool}
    (whole : lone w root = none) :
    group r lone tokens root = assemble r (parts r lone tokens) root := by
  have word := h.word
  match tokens with
  | [] => rfl
  | [.word u] =>
    cases p with
    | zero =>
      cases word
      simp only [group, whole, parts, token]
    | succ p => cases word
  | [.group items raw] => cases p <;> cases word
  | [.quoted _] | [.block _] | [.list ..] => simp only [group, parts]
  | _ :: _ :: _ => simp only [group, parts]

/-- The keyword a token at an index is, with its word and index. -/
def keywordAt? (r : Registry) : Token × Nat → Option (Nat × String × Keyword)
  | (.word w, i) => (r.keyword? w).map fun k => (i, w, k)
  | _ => none

theorem keywordsIn_parts :
    keywordsIn r (parts r lone tokens) = tokens.zipIdx.filterMap (keywordAt? r) := by
  rw [keywordsIn, parts_eq_map, List.zipIdx_map, List.filterMap_map]
  refine List.filterMap_congr fun ⟨t, i⟩ _ => ?_
  cases t with
  | word w => exact Option.map_eq_bind.symm
  | _ => rfl

/-- The keyword is found. -/
theorem OneKeyword.keywordsIn_eq (h : OneKeyword r tokens p w k) :
    keywordsIn r (parts r lone tokens) = [(p, w, k)] := by
  have elsewhere : ∀ a ∈ tokens.zipIdx, a.2 ≠ p → keywordAt? r a = none := by
    rintro ⟨t, i⟩ ht hi
    cases t with
    | word u =>
      cases hu : r.keyword? u with
      | none => rw [keywordAt?, hu, Option.map_none]
      | some k' =>
        have kw : r.isKeyword u = true := by rw [Registry.isKeyword_eq, hu, Option.isSome_some]
        exact absurd (h.only i u (List.mem_zipIdx_iff_getElem?.1 ht) kw) hi
    | _ => rfl
  have there : (Token.word w, p) ∈ tokens.zipIdx := List.mem_zipIdx_iff_getElem?.2 h.word
  obtain ⟨before, after, split⟩ := List.append_of_mem there
  have ordered := zipIdx_pairwise tokens
  rw [split, List.pairwise_append, List.pairwise_cons] at ordered
  obtain ⟨-, ⟨right, -⟩, left⟩ := ordered
  have none_before : before.filterMap (keywordAt? r) = [] :=
    List.filterMap_eq_nil_iff.2 fun a ha => elsewhere a (split ▸ List.mem_append_left _ ha)
      (Nat.ne_of_lt (left a ha _ List.mem_cons_self))
  have none_after : after.filterMap (keywordAt? r) = [] :=
    List.filterMap_eq_nil_iff.2 fun a ha =>
      elsewhere a (split ▸ List.mem_append_right _ (List.mem_cons_of_mem _ ha))
        (Nat.ne_of_gt (right a ha))
  have here : keywordAt? r (.word w, p) = some (p, w, k) := by
    rw [keywordAt?, h.keyword, Option.map_some]
  rw [keywordsIn_parts, split, List.filterMap_append, none_before, List.filterMap_cons_some here,
    none_after, List.nil_append]

/-- **A group with one keyword means its call.** -/
theorem OneKeyword.group_eq_call (h : OneKeyword r tokens p w k) {root : Bool}
    (whole : lone w root = none) :
    group r lone tokens root = call k (parts r lone tokens) p := by
  rw [h.group_eq whole, assemble, h.keywordsIn_eq]

/-- A lone keyword is not split. -/
theorem splitWord_of_isKeyword (h : r.isKeyword w = true) (root : Bool) :
    splitWord r w root = none := by
  rw [splitWord, split?]
  split
  · simp [h]
  · rfl

/-- What the slots get makes a call if each positional slot gets something and everything
used has a meaning. -/
theorem Allotment.exists_makes_iff {a : Allotment} :
    (∃ code, a.Makes r lone k code) ↔
      (∀ s ∈ a.args, s.isSome) ∧ ∀ s ∈ a.sources, ∃ e, s.code r lone k = .ok e := by
  have every : (∃ code, a.Makes r lone k code) ↔
      (∀ s ∈ a.args, ∃ e source, s = some source ∧ source.code r lone k = .ok e) ∧
      (∀ s ∈ filled a.named, ∃ e : String × Expr, s.1 = e.1 ∧ s.2.code r lone k = .ok e.2) ∧
      ∀ s ∈ a.rest, ∃ e, (Source.taken s.1 s.2).code r lone k = .ok e := by
    rw [← exists_forall₂_iff, ← exists_forall₂_iff, ← exists_forall₂_iff]
    constructor
    · rintro ⟨_, ⟨hargs, hnamed, hrest⟩⟩
      exact ⟨⟨_, hargs⟩, ⟨_, hnamed⟩, ⟨_, hrest⟩⟩
    · rintro ⟨⟨_, hargs⟩, ⟨_, hnamed⟩, ⟨_, hrest⟩⟩
      exact ⟨_, .call hargs hnamed hrest⟩
  rw [every]
  simp only [sources, List.mem_append, List.mem_filterMap, List.mem_map]
  constructor
  · rintro ⟨hargs, hnamed, hrest⟩
    refine ⟨fun s hs => ?_, ?_⟩
    · obtain ⟨e, source, rfl, -⟩ := hargs s hs
      rfl
    · rintro s ((⟨_, hs, rfl⟩ | ⟨_, hs, rfl⟩) | ⟨_, hs, rfl⟩)
      · obtain ⟨e, source, h, he⟩ := hargs _ hs
        cases h
        exact ⟨e, he⟩
      · obtain ⟨e, -, he⟩ := hnamed _ hs
        exact ⟨_, he⟩
      · exact hrest _ hs
  · rintro ⟨hargs, hall⟩
    refine ⟨fun s hs => ?_, fun s hs => ?_, fun s hs => ?_⟩
    · obtain ⟨source, rfl⟩ := Option.isSome_iff_exists.1 (hargs s hs)
      obtain ⟨e, he⟩ := hall source (.inl (.inl ⟨_, hs, rfl⟩))
      exact ⟨e, source, rfl, he⟩
    · obtain ⟨e, he⟩ := hall s.2 (.inl (.inr ⟨s, hs, rfl⟩))
      exact ⟨(s.1, e), rfl, he⟩
    · exact hall _ (.inr ⟨s, hs, rfl⟩)

end Call

/-- **A call loses no token.**  A group with one keyword has a meaning if and only if each
positional slot of the keyword gets a token or a default, everything used has a meaning, and
nothing is left over unless the keyword is variadic.  Its meaning is then the call of what
the slots get.

Every token around the keyword is used exactly once: by the first positional slot that names
its distance, else by the first named slot that does, else as one of those left over, which
come in order of distance. -/
theorem call_loses_no_token {r : Registry} {lone : String → Bool → Option Compiled}
    {k : Keyword} {tokens : List Token} {p : Nat} {w : String}
    (reads : lone = splitWord r ∨ lone = fun _ _ => none) (one : OneKeyword r tokens p w k)
    (root : Bool) :
    let a := allot k tokens p
    ((∃ code, group r lone tokens root = .ok code) ↔
      (∀ s ∈ a.args, s.isSome) ∧ (∀ s ∈ a.sources, ∃ e, s.code r lone k = .ok e) ∧
        (a.rest = [] ∨ k.variadic = true)) ∧
    (∀ code, group r lone tokens root = .ok code → a.Makes r lone k code) ∧
    a.args.length = k.args.length ∧
    a.uses.Perm (neighbours tokens p) ∧
    (∀ slot t, (slot, t) ∈ neighbours tokens p →
      if slot ∈ k.args then a.args[k.args.idxOf slot]? = some (some (.taken slot t))
      else if slot ∈ k.named.map (·.2) then
        (a.named.map (·.2))[(k.named.map (·.2)).idxOf slot]? = some (some (.taken slot t))
      else (slot, t) ∈ a.rest) ∧
    a.rest.Pairwise fun x y => x.1.offset < y.1.offset := by
  have whole : lone w root = none := by
    obtain rfl | rfl := reads
    · exact splitWord_of_isKeyword one.isKeyword root
    · rfl
  intro a
  have meaning (code : Expr) : group r lone tokens root = .ok code ↔
      a.Makes r lone k code ∧ (a.rest = [] ∨ k.variadic = true) := by
    rw [one.group_eq_call whole, call_eq_ok_iff]
  refine ⟨?_, fun code h => ((meaning code).1 h).1, length_sources _ _, allot_uses_perm,
    fun slot t h => ?_, allot_rest_pairwise⟩
  · simp only [meaning, exists_and_right, Allotment.exists_makes_iff, and_assoc]
  · split
    · next positional => exact sources_idxOf h List.not_mem_nil positional
    · next other =>
      split
      · next named =>
        rw [map_allot_named]
        exact sources_idxOf h other named
      · next left =>
        exact mem_free.2 ⟨h, fun hm => (List.mem_append.1 hm).elim other left⟩

/-- A keyword whose slots overlap: `$1` is positional twice and named once, with a default
for when it is taken, `$2` is named and taken as text, and nobody stands at `$4`. -/
def volley : Keyword :=
  ({ name := "f", target := "g", args := [.after 1, .before 1, .after 1]
     named := [("u", .after 2), ("v", .after 1), ("x", .after 4)]
     variadic := true, literal := [.after 2] } : Keyword).withDefault (.after 1) (.int 7)

/-- A volley of five tokens: two become positional arguments, one a named one, and one is
left over. -/
theorem call_loses_no_token_volley :
    let r := Registry.register {} volley
    let tokens := [.word "a", .word "f", .word "b", .group [.word "c", .word "d"] "c d", .word "e"]
    let code : Expr := .call "g" [.name "b", .name "a", .literal (.int 7)] [.name "e"]
      [("u", .literal (.str "c d")), ("v", .literal (.int 7))]
    group r (splitWord r) tokens true = .ok code ∧
      (allot volley tokens 1).Makes r (splitWord r) volley code ∧
      (allot volley tokens 1).uses.Perm (neighbours tokens 1) := by
  intro r tokens code
  have one : OneKeyword r tokens 1 "f" volley := {
    word := rfl
    keyword := by cbv
    only := by
      intro i u hi hu
      rcases i with _ | _ | _ | _ | _ | i
      case zero | succ.succ.zero | succ.succ.succ.succ.zero => cases hi; cases hu
      case succ.zero => rfl
      all_goals cases hi }
  have means : group r (splitWord r) tokens true = .ok code := by cbv
  exact ⟨means, (call_loses_no_token (.inl rfl) one true).2.1 _ means,
    (call_loses_no_token (.inl rfl) one true).2.2.2.1⟩

end Compile
end Tabletop
