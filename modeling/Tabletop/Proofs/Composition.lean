/-
# Composition: what the meaning of a script is made of

Whatever a script means is put together from literals, roles, names that could be written
as words, lists, tuples, and calls that some keyword makes (`Expr.Made`): a call carries as
many positional arguments as its keyword has slots for them, and the names of its named
arguments are among those of the keyword.

Nothing else comes out of a script that compiles (`Registry.made_of_meaning`).
-/

import Tabletop.Proofs.Binding
import Tabletop.Proofs.Spelling

namespace Tabletop

/-- An expression made of what a registry has words for. -/
inductive Expr.Made (r : Registry) : Expr → Prop
  | literal (value : Literal) : Made r (.literal value)
  | role (role : Role) : Made r (.role role)
  | name {name : String} : (∀ c ∈ name.toList, endsWord c = false) → Made r (.name name)
  | list {items : List Expr} : (∀ e ∈ items, Made r e) → Made r (.list items)
  | tuple {items : List Expr} : (∀ e ∈ items, Made r e) → Made r (.tuple items)
  | call {w : String} {k : Keyword} {args variadic : List Expr} {named : List (String × Expr)} :
      r.keyword? w = some k → args.length = k.args.length →
      (∀ arg ∈ named, arg.1 ∈ k.named.map (·.1)) → (∀ e ∈ args, Made r e) →
      (∀ e ∈ variadic, Made r e) → (∀ arg ∈ named, Made r arg.2) →
      Made r (.call k.target args variadic named)

variable {r : Registry}

/-- A word means something made. -/
theorem Expr.made_ofWord {w : String} (h : ∀ c ∈ w.toList, endsWord c = false) :
    (ofWord w).Made r := by
  rw [ofWord]
  split
  · exact .literal _
  · split
    · exact .literal _
    · split
      · exact .literal _
      · split
        · exact .literal _
        · split
          · exact .role _
          · exact .name h

namespace Compile

variable {lone : String → Bool → Option Compiled} {tokens : List Token}

/-- Tokens of which every meaning is made. -/
def Sturdy (r : Registry) (lone : String → Bool → Option Compiled) (t : Token) : Prop :=
  ∀ e, token r lone t = .ok e → e.Made r

/-- What a call is made of is made if the tokens around its keyword are. -/
theorem made_of_source {k : Keyword} {p : Nat} (sturdy : ∀ t ∈ tokens, Sturdy r lone t)
    {s : Source} (hs : s ∈ (allot k tokens p).sources) {e : Expr}
    (he : s.code r lone k = .ok e) : e.Made r := by
  cases s with
  | default value =>
    cases he
    exact .literal value
  | taken slot t =>
    rw [Source.code] at he
    split at he
    · cases he
      exact .literal _
    · have used : (slot, t) ∈ (allot k tokens p).uses := List.mem_filterMap.2 ⟨_, hs, rfl⟩
      obtain ⟨i, -, hi, -⟩ := mem_neighbours.1 (allot_uses_perm.mem_iff.1 used)
      exact sturdy t (List.mem_of_getElem? hi) e he

/-- A member of a related row is related to one of the other row. -/
theorem exists_of_forall₂ {α β : Type} {R : α → β → Prop} {l : List α} {bs : List β}
    (h : List.Forall₂ R l bs) {b : β} (hb : b ∈ bs) : ∃ a ∈ l, R a b := by
  induction h with
  | nil => cases hb
  | cons first _ ih =>
    rcases List.mem_cons.1 hb with rfl | hb
    · exact ⟨_, List.mem_cons_self, first⟩
    · obtain ⟨a, ha, rel⟩ := ih hb
      exact ⟨a, List.mem_cons_of_mem _ ha, rel⟩

/-- **A call is made** if the tokens around its keyword are. -/
theorem made_call {w : String} {k : Keyword} {p : Nat} (hk : r.keyword? w = some k)
    (sturdy : ∀ t ∈ tokens, Sturdy r lone t) {e : Expr}
    (h : call k (parts r lone tokens) p = .ok e) : e.Made r := by
  obtain ⟨args, named, rest⟩ := (call_eq_ok_iff.1 h).1
  have made {s : Source} (hs : s ∈ (allot k tokens p).sources) {e : Expr}
      (he : s.code r lone k = .ok e) : e.Made r := made_of_source sturdy hs he
  refine .call hk ?_ (fun arg harg => ?_) (fun e he => ?_) (fun e he => ?_) (fun arg harg => ?_)
  · rw [← args.length_eq]
    exact length_sources _ _
  · obtain ⟨⟨name, s⟩, hs, same, -⟩ := exists_of_forall₂ named harg
    rw [← same]
    obtain ⟨⟨name', o⟩, ho, pick⟩ := List.mem_filterMap.1 hs
    cases o with
    | none => cases pick
    | some s' =>
      cases pick
      exact (List.of_mem_zip ho).1
  · obtain ⟨_, hs, source, rfl, code⟩ := exists_of_forall₂ args he
    refine made (List.mem_append_left _ (List.mem_append_left _ ?_)) code
    exact List.mem_filterMap.2 ⟨_, hs, rfl⟩
  · obtain ⟨⟨slot, t⟩, hs, code⟩ := exists_of_forall₂ rest he
    exact made (List.mem_append_right _ (List.mem_map_of_mem hs)) code
  · obtain ⟨s, hs, -, code⟩ := exists_of_forall₂ named harg
    exact made (List.mem_append_left _ (List.mem_append_right _ (List.mem_map_of_mem hs))) code

/-- A group is made if its tokens are. -/
theorem made_assemble (sturdy : ∀ t ∈ tokens, Sturdy r lone t) {root : Bool} {e : Expr}
    (h : assemble r (parts r lone tokens) root = .ok e) : e.Made r := by
  rw [assemble] at h
  split at h
  · split at h
    · cases h
    · obtain ⟨items, hitems, h⟩ := Except.bind_eq_ok_iff.1 h
      cases h
      rw [parts_eq_map, Except.mapM_eq_ok_iff, List.forall₂_map_left_iff] at hitems
      refine .tuple fun e he => ?_
      obtain ⟨t, ht, code⟩ := exists_of_forall₂ hitems he
      exact sturdy t ht e code
  · next p w k one =>
    have found : (p, w, k) ∈ keywordsIn r (parts r lone tokens) := one ▸ List.mem_cons_self
    obtain ⟨⟨part, i⟩, -, hw⟩ := List.mem_filterMap.1 found
    obtain ⟨w', -, hw⟩ := Option.bind_eq_some_iff.1 hw
    obtain ⟨k', hk, hw⟩ := Option.bind_eq_some_iff.1 hw
    cases hw
    exact made_call hk sturdy h
  · cases h

/-- What lone words are split into is made. -/
def Splits (r : Registry) (lone : String → Bool → Option Compiled) : Prop :=
  ∀ w, (Token.word w).Proper → ∀ root e, lone w root = some (.ok e) → e.Made r

mutual

/-- A proper token is sturdy. -/
theorem sturdy_of_proper (hl : Splits r lone) : ∀ t : Token, t.Proper → Sturdy r lone t
  | .word w, h, e, he => by
    cases he
    cases h with
    | word _ letters => exact Expr.made_ofWord fun c hc => Bool.or_eq_false_iff.2 (letters c hc)
  | .quoted _, _, _, he | .block _, _, _, he => by
    cases he
    exact .literal _
  | .group items _, h, e, he => by
    cases h with
    | group _ proper => exact made_group hl items proper he
  | .list items _, h, e, he => by
    cases h with
    | list proper =>
      obtain ⟨es, hes, he⟩ := Except.bind_eq_ok_iff.1 he
      cases he
      rw [parts_eq_map, Except.mapM_eq_ok_iff, List.forall₂_map_left_iff] at hes
      refine .list fun e he => ?_
      obtain ⟨t, ht, code⟩ := exists_of_forall₂ hes he
      exact sturdyAll_of_proper hl items proper t ht e code

/-- Proper tokens are sturdy. -/
theorem sturdyAll_of_proper (hl : Splits r lone) :
    ∀ ts : List Token, (∀ t ∈ ts, t.Proper) → ∀ t ∈ ts, Sturdy r lone t
  | [], _ => fun _ ht => absurd ht List.not_mem_nil
  | t :: ts, h => by
    obtain ⟨first, others⟩ := List.forall_mem_cons.1 h
    exact List.forall_mem_cons.2
      ⟨sturdy_of_proper hl t first, sturdyAll_of_proper hl ts others⟩

/-- A group of proper tokens is made. -/
theorem made_group (hl : Splits r lone) : ∀ ts : List Token, (∀ t ∈ ts, t.Proper) →
    ∀ {root : Bool} {e : Expr}, group r lone ts root = .ok e → e.Made r
  | [], h, _, _, he => made_assemble (sturdyAll_of_proper hl [] h) he
  | [.group items _], h, _, _, he => by
    cases List.forall_mem_singleton.1 h with
    | group _ proper => exact made_group hl items proper he
  | [.word w], h, root, e, he => by
    rw [group] at he
    split at he
    · next code split =>
      exact hl w (List.forall_mem_singleton.1 h) root e (split.trans (congrArg _ he))
    · exact made_assemble (sturdyAll_of_proper hl [.word w] h) he
  | [.quoted text], h, _, _, he => made_assemble (sturdyAll_of_proper hl [.quoted text] h) he
  | [.block text], h, _, _, he => made_assemble (sturdyAll_of_proper hl [.block text] h) he
  | [.list items raw], h, _, _, he =>
    made_assemble (sturdyAll_of_proper hl [.list items raw] h)
      (by simpa only [group, parts] using he)
  | t :: u :: ts, h, _, _, he =>
    made_assemble (sturdyAll_of_proper hl (t :: u :: ts) h) (by simpa only [group, parts] using he)

end

/-- The first character of a proper word is one. -/
theorem proper_first {w : String} {c d : Char} {rest : List Char} (h : (Token.word w).Proper)
    (hw : w.toList = c :: d :: rest) : (Token.word (String.ofList [c])).Proper := by
  cases h with
  | word _ letters plain =>
    rw [hw] at letters plain
    refine .word ?_ ?_ ?_
    · simp [← String.toList_inj]
    · rw [String.toList_ofList, List.forall_mem_singleton]
      exact letters c List.mem_cons_self
    · have noDot : c ≠ '.' := by
        rintro rfl
        simp [Word.isChain, Char.isDigit] at plain
      rw [String.toList_ofList]
      simp [Word.isChain, Ne.symm noDot]

/-- A lone word that is split is made. -/
theorem splits_splitWord (r : Registry) : Splits r (splitWord r) := by
  intro w proper root e h
  obtain ⟨tokens, split, h⟩ := Option.map_eq_some_iff.1 h
  obtain ⟨ts, rfl, h⟩ := Except.bind_eq_ok_iff.1 h
  rw [split?] at split
  split at split
  · next first next rest hw =>
    split at split
    · obtain ⟨others, hothers, ht⟩ := Except.bind_eq_ok_iff.1 (Option.some.inj split)
      cases ht
      have properAll : ∀ t ∈ Token.word (String.ofList [first]) :: others, t.Proper :=
        List.forall_mem_cons.2 ⟨proper_first proper hw, (tokens?_eq_ok_iff.1 hothers).1.proper⟩
      have unsplit : Splits r fun _ _ => none := by
        intro _ _ _ _ h
        cases h
      exact made_group unsplit _ properAll h
    · cases split
  · cases split

end Compile

/-- **What a script means is made.** -/
theorem Registry.made_of_meaning {text : String} {e : Expr} (h : r.meaning text = .ok e) :
    e.Made r := by
  obtain ⟨ts, hts, h⟩ := Except.bind_eq_ok_iff.1 h
  have proper := (tokens?_eq_ok_iff.1 hts).1.proper
  exact Compile.made_group (Compile.splits_splitWord r) ts proper h

end Tabletop
