/-
# Allotment: which token each slot of a call gets

A call runs through the slots of its keyword and takes the tokens around the keyword
away one by one.  What comes of this can be said without running: a slot gets the
token at its distance if no slot named earlier is the same, else its default
(`source?`), and what no slot names is left over.  `allot` writes this down for a
whole call.

No token is lost and none is used twice (`allot_uses_perm`): what a slot uses, put
back to what is free after it, is what was free before it.
-/

import Tabletop.Script
import Mathlib.Data.List.Nodup

namespace Tabletop
namespace Compile

/-! ### What is allotted -/

/-- The tokens around a position, each at its slot. -/
def neighbours (tokens : List Token) (p : Nat) : List (Slot × Token) :=
  (tokens.zipIdx.filter fun (_, i) => i ≠ p).map fun (t, i) => (Slot.between i p, t)

/-- The tokens around a position at none of some slots. -/
def free (tokens : List Token) (p : Nat) (slots : List Slot) : List (Slot × Token) :=
  (neighbours tokens p).filter fun (slot, _) => slot ∉ slots

/-- The token at a signed distance from a position; the one at the position is none. -/
def tokenAt? (tokens : List Token) (p : Nat) (slot : Slot) : Option Token :=
  if slot.offset = 0 ∨ p + slot.offset < 0 then none else tokens[(p + slot.offset).toNat]?

/-- What an argument is made from: the token at a slot, or the default of a slot. -/
inductive Source
  | taken (slot : Slot) (t : Token)
  | default (value : Literal)

/-- The token a source uses, with its slot. -/
def Source.use? : Source → Option (Slot × Token)
  | .taken slot t => some (slot, t)
  | .default _ => none

/-- The argument a source makes: the text of a token at a literal slot, the meaning of
a token elsewhere, a default as it is. -/
def Source.code (r : Registry) (lone : String → Bool → Option Compiled) (k : Keyword) :
    Source → Compiled
  | .taken slot t => if slot ∈ k.literal then .ok (.literal (.str t.text)) else token r lone t
  | .default value => .ok (.literal value)

/-- What a slot gets after other slots: the token at its distance, unless one of them
is the same slot; else its default. -/
def source? (k : Keyword) (tokens : List Token) (p : Nat) (earlier : List Slot) (slot : Slot) :
    Option Source :=
  match if slot ∈ earlier then none else tokenAt? tokens p slot with
  | some t => some (.taken slot t)
  | none => (k.defaults[slot]?).map .default

/-- What each of a row of slots gets, after other slots and those before it in the row. -/
def sources (k : Keyword) (tokens : List Token) (p : Nat) (earlier slots : List Slot) :
    List (Option Source) :=
  slots.mapIdx fun j slot => source? k tokens p (earlier ++ slots.take j) slot

/-- What the slots of a call get. -/
structure Allotment where
  /-- For each positional slot, in order. -/
  args : List (Option Source)
  /-- For each named slot, in order. -/
  named : List (String × Option Source)
  /-- The tokens no slot names. -/
  rest : List (Slot × Token)

/-- The positional slots come first, then the named ones. -/
def allot (k : Keyword) (tokens : List Token) (p : Nat) : Allotment where
  args := sources k tokens p [] k.args
  named := (k.named.map (·.1)).zip (sources k tokens p k.args (k.named.map (·.2)))
  rest := free tokens p (k.args ++ k.named.map (·.2))

/-- The named slots that get something. -/
def filled (named : List (String × Option Source)) : List (String × Source) :=
  named.filterMap fun (name, s) => s.map (name, ·)

namespace Allotment

/-- All that arguments are made from. -/
def sources (a : Allotment) : List Source :=
  a.args.filterMap id ++ (filled a.named).map (·.2) ++ a.rest.map fun (slot, t) => .taken slot t

/-- The tokens that arguments are made from, with their slots. -/
def uses (a : Allotment) : List (Slot × Token) := a.sources.filterMap Source.use?

end Allotment

/-! ### The neighbours of a position -/

variable {tokens : List Token} {p : Nat}

theorem mem_neighbours {slot : Slot} {t : Token} :
    (slot, t) ∈ neighbours tokens p ↔
      ∃ i, i ≠ p ∧ tokens[i]? = some t ∧ slot = Slot.between i p := by
  simp only [neighbours, List.mem_map, List.mem_filter, List.mem_zipIdx_iff_getElem?,
    decide_eq_true_eq, Prod.exists, Prod.mk.injEq]
  constructor
  · rintro ⟨t', i, ⟨ht, hi⟩, rfl, rfl⟩
    exact ⟨i, hi, ht, rfl⟩
  · rintro ⟨i, hi, ht, rfl⟩
    exact ⟨t, i, ⟨ht, hi⟩, rfl, rfl⟩

/-- A token is at a distance if and only if it is the neighbour there. -/
theorem tokenAt?_eq_some_iff {slot : Slot} {t : Token} :
    tokenAt? tokens p slot = some t ↔ (slot, t) ∈ neighbours tokens p := by
  obtain ⟨n⟩ := slot
  simp only [mem_neighbours, tokenAt?, Slot.between, Slot.mk.injEq]
  split
  · rename_i h
    refine ⟨fun h => (nomatch h), fun ⟨i, hi, _, hn⟩ => ?_⟩
    omega
  · rename_i h
    constructor
    · intro ht
      exact ⟨_, by omega, ht, by omega⟩
    · rintro ⟨i, hi, ht, rfl⟩
      have hi : (p + (i - p : Int)).toNat = i := by omega
      rw [hi, ht]

/-- Numbered things are in order of their numbers. -/
theorem zipIdx_pairwise {α : Type} (l : List α) : l.zipIdx.Pairwise fun a b => a.2 < b.2 := by
  rw [← List.pairwise_map (f := Prod.snd) (R := (· < ·)), List.zipIdx_map_snd]
  exact List.pairwise_lt_range'

/-- The neighbours are in order of distance. -/
theorem neighbours_pairwise :
    (neighbours tokens p).Pairwise fun a b => a.1.offset < b.1.offset := by
  rw [neighbours, List.pairwise_map]
  refine ((zipIdx_pairwise tokens).filter _).imp ?_
  intro a b h
  simp only [Slot.between]
  omega

theorem neighbours_nodup : (neighbours tokens p).Nodup :=
  neighbours_pairwise.imp fun h e => by rw [e] at h; exact Int.lt_irrefl _ h

theorem mem_free {slots : List Slot} {slot : Slot} {t : Token} :
    (slot, t) ∈ free tokens p slots ↔ (slot, t) ∈ neighbours tokens p ∧ slot ∉ slots := by
  simp only [free, List.mem_filter, decide_eq_true_eq]

theorem free_nil : free tokens p [] = neighbours tokens p := by
  simp [free]

/-- Naming a slot takes its token away. -/
theorem free_concat (slots : List Slot) (slot : Slot) :
    free tokens p (slots ++ [slot]) = (free tokens p slots).filter fun (s, _) => s ≠ slot := by
  rw [free, free, List.filter_filter]
  refine List.filter_congr fun a _ => ?_
  simp [and_comm]

/-- Naming a slot without a token takes none away. -/
theorem free_concat_of_not_mem {slots : List Slot} {slot : Slot}
    (h : ∀ t, (slot, t) ∉ free tokens p slots) :
    free tokens p (slots ++ [slot]) = free tokens p slots := by
  rw [free_concat, List.filter_eq_self]
  rintro ⟨s, t⟩ ht
  refine decide_eq_true ?_
  rintro rfl
  exact h t ht

/-- **A slot is filled by a free token or by its default.** -/
theorem source?_cases (tokens : List Token) (p : Nat) (k : Keyword) (slots : List Slot)
    (slot : Slot) :
    (∃ t, source? k tokens p slots slot = some (.taken slot t) ∧
      (slot, t) ∈ free tokens p slots) ∨
    (source? k tokens p slots slot = (k.defaults[slot]?).map .default ∧
      ∀ t, (slot, t) ∉ free tokens p slots) := by
  rw [source?]
  by_cases named : slot ∈ slots
  · rw [if_pos named]
    exact .inr ⟨rfl, fun t ht => (mem_free.1 ht).2 named⟩
  · rw [if_neg named]
    cases at? : tokenAt? tokens p slot with
    | some t => exact .inl ⟨t, rfl, mem_free.2 ⟨tokenAt?_eq_some_iff.1 at?, named⟩⟩
    | none =>
      refine .inr ⟨rfl, fun t ht => ?_⟩
      have at?' := tokenAt?_eq_some_iff.2 (mem_free.1 ht).1
      rw [at?] at at?'
      cases at?'

theorem sources_cons (k : Keyword) (earlier : List Slot) (slot : Slot) (slots : List Slot) :
    sources k tokens p earlier (slot :: slots) =
      source? k tokens p earlier slot :: sources k tokens p (earlier ++ [slot]) slots := by
  simp [sources, List.mapIdx_cons]

/-- At a slot stands at most one token. -/
theorem neighbours_inj {slot : Slot} {t t' : Token} (h : (slot, t) ∈ neighbours tokens p)
    (h' : (slot, t') ∈ neighbours tokens p) : t = t' := by
  have e := tokenAt?_eq_some_iff.2 h
  rw [tokenAt?_eq_some_iff.2 h'] at e
  exact (Option.some.inj e).symm

/-- What a slot uses and what is free after it is what was free before it. -/
theorem free_perm (tokens : List Token) (p : Nat) (k : Keyword) (slots : List Slot)
    (slot : Slot) :
    (((source? k tokens p slots slot).bind Source.use?).toList ++
      free tokens p (slots ++ [slot])).Perm (free tokens p slots) := by
  obtain ⟨t, hs, ht⟩ | ⟨hs, none⟩ := source?_cases tokens p k slots slot
  · have nodup : ∀ slots, (free tokens p slots).Nodup := fun _ => neighbours_nodup.filter _
    have claimed : (slot, t) ∉ free tokens p (slots ++ [slot]) := fun h =>
      (mem_free.1 h).2 (List.mem_concat_self)
    rw [hs]
    refine (List.perm_ext_iff_of_nodup (.cons claimed (nodup _)) (nodup _)).2 fun ⟨s, t'⟩ => ?_
    simp only [List.mem_cons, mem_free, List.mem_append, List.not_mem_nil, or_false,
      Prod.mk.injEq]
    have ⟨there, free⟩ := mem_free.1 ht
    by_cases same : s = slot
    · subst same
      exact ⟨fun h => h.elim (fun e => e.2 ▸ ⟨there, free⟩) fun h => absurd (.inr rfl) h.2,
        fun h => .inl ⟨rfl, neighbours_inj h.1 there⟩⟩
    · simp [same]
  · have unused : (source? k tokens p slots slot).bind Source.use? = Option.none := by
      rw [hs]
      cases k.defaults[slot]? <;> rfl
    rw [free_concat_of_not_mem none, unused]
    exact .refl _

/-- What a row of slots uses and what is free after it is what was free before it. -/
theorem free_append_perm (tokens : List Token) (p : Nat) (k : Keyword)
    (earlier slots : List Slot) :
    ((sources k tokens p earlier slots).filterMap (·.bind Source.use?) ++
      free tokens p (earlier ++ slots)).Perm (free tokens p earlier) := by
  induction slots generalizing earlier with
  | nil => rw [List.append_nil]; exact .refl _
  | cons slot slots ih =>
    have first := free_perm tokens p k earlier slot
    have others := ih (earlier ++ [slot])
    rw [List.append_assoc, List.singleton_append] at others
    rw [List.filterMap_eq_flatMap_toList] at others ⊢
    rw [sources_cons, List.flatMap_cons, List.append_assoc]
    exact (others.append_left _).trans first

/-! ### Every token is used once -/

variable {k : Keyword}

theorem length_sources (earlier slots : List Slot) :
    (sources k tokens p earlier slots).length = slots.length := List.length_mapIdx

/-- There is a name for each named slot. -/
theorem length_names : (k.named.map (·.1)).length =
    (sources k tokens p k.args (k.named.map (·.2))).length := by
  rw [length_sources, List.length_map, List.length_map]

/-- The named slots that get something, without their names. -/
theorem map_filled_zip {names : List String} {ss : List (Option Source)}
    (h : names.length = ss.length) : (filled (names.zip ss)).map (·.2) = ss.filterMap id := by
  induction names generalizing ss with
  | nil =>
    have h : ss = [] := List.length_eq_zero_iff.1 h.symm
    rw [h]
    rfl
  | cons name names ih =>
    cases ss with
    | nil => cases h
    | cons s ss =>
      have others := ih (Nat.succ.inj h)
      cases s with
      | none => exact others
      | some s => exact congrArg (s :: ·) others

/-- **Every token around the keyword is used exactly once**: by a positional slot, by a
named slot, or as one that is left over. -/
theorem allot_uses_perm : (allot k tokens p).uses.Perm (neighbours tokens p) := by
  have args := free_append_perm tokens p k [] k.args
  have named := free_append_perm tokens p k k.args (k.named.map (·.2))
  have rest : ((free tokens p (k.args ++ k.named.map (·.2))).map fun (slot, t) =>
      Source.taken slot t).filterMap Source.use? = free tokens p (k.args ++ k.named.map (·.2)) := by
    rw [List.filterMap_map]
    exact List.filterMap_some
  rw [free_nil] at args
  rw [Allotment.uses, Allotment.sources, allot, map_filled_zip length_names, List.filterMap_append,
    List.filterMap_append, List.filterMap_filterMap, List.filterMap_filterMap, rest,
    List.append_assoc]
  exact (named.append_left _).trans args

theorem allot_rest_pairwise :
    (allot k tokens p).rest.Pairwise fun a b => a.1.offset < b.1.offset :=
  neighbours_pairwise.filter _

/-- **The first slot that names a token's distance gets it**, unless an earlier one did. -/
theorem sources_idxOf {earlier slots : List Slot} {slot : Slot} {t : Token}
    (h : (slot, t) ∈ neighbours tokens p) (new : slot ∉ earlier) (named : slot ∈ slots) :
    (sources k tokens p earlier slots)[slots.idxOf slot]? = some (some (.taken slot t)) := by
  induction slots generalizing earlier with
  | nil => cases named
  | cons first slots ih =>
    rw [sources_cons]
    by_cases same : first = slot
    · subst same
      rw [List.idxOf_cons_self, List.getElem?_cons_zero, source?, if_neg new,
        tokenAt?_eq_some_iff.2 h]
    · have later : slot ∈ slots := (List.mem_cons.1 named).resolve_left (Ne.symm same)
      rw [List.idxOf_cons_ne _ same, List.getElem?_cons_succ]
      refine ih (fun hm => ?_) later
      rcases List.mem_append.1 hm with hm | hm
      · exact new hm
      · exact same (List.mem_singleton.1 hm).symm

/-- The slots that have names get what comes after the positional ones. -/
theorem map_allot_named : (allot k tokens p).named.map (·.2) =
    sources k tokens p k.args (k.named.map (·.2)) :=
  List.map_snd_zip (Nat.le_of_eq length_names.symm)

end Compile
end Tabletop
