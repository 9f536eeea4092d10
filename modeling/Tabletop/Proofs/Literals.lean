/-
# Literals: where the text of a token counts

The text that a group or a list keeps is part of what a script means only where it is taken
literally: in a literal slot of the keyword of its group, or inside of what sits in one
(`Registry.literalAround`).  What a call tells of a token is its slot and the argument it makes
there (`Unclaimed.shown`), and anywhere else the argument is what the token means.

So scripts that differ only in kept texts mean the same with every vocabulary, unless the place
where they differ, or a bracket around it, sits in a literal slot (`Compile.group_textsDiffer`).
-/

import Tabletop.Proofs.Abreast
import Tabletop.Proofs.Compact

namespace Tabletop

open Compile
open Token (TextsDiffer)

/-! ### What a call can tell of its tokens -/

namespace Compile

section Call

variable {k : Keyword} {left left' : Unclaimed}

/-- What a call can tell of the tokens it has left: their slots, and the arguments they make. -/
def Unclaimed.shown (k : Keyword) (left : Unclaimed) : List (Slot × Compiled) :=
  left.map fun (slot, part) => (slot, argument k slot part)

theorem Unclaimed.lookup_shown (left : Unclaimed) (slot : Slot) :
    (left.shown k).lookup slot = (left.lookup slot).map (argument k slot) := by
  induction left with
  | nil => rfl
  | cons entry left ih =>
    obtain ⟨s, part⟩ := entry
    rw [shown, List.map_cons, List.lookup_cons, List.lookup_cons]
    split
    · next same => rw [eq_of_beq same, Option.map_some]
    · exact ih

theorem Unclaimed.filter_shown (left : Unclaimed) (slot : Slot) :
    Unclaimed.shown k (left.filter fun (s, _) => s ≠ slot) =
      (left.shown k).filter fun (s, _) => s ≠ slot := by
  rw [shown, shown, List.filter_map]
  rfl

/-- The same is claimed, and as far as a call can tell the same is left. -/
def ClaimedAlike {α : Type} (k : Keyword) (a b : α × Unclaimed) : Prop :=
  a.1 = b.1 ∧ a.2.shown k = b.2.shown k

theorem claim_corresponds (h : left.shown k = left'.shown k) (slot : Slot) :
    Corresponds Eq (ClaimedAlike k) (claim k slot left) (claim k slot left') := by
  have found : (left.lookup slot).map (argument k slot) =
      (left'.lookup slot).map (argument k slot) := by
    rw [← Unclaimed.lookup_shown, h, Unclaimed.lookup_shown]
  have rest : Unclaimed.shown k (left.filter fun (s, _) => s ≠ slot) =
      Unclaimed.shown k (left'.filter fun (s, _) => s ≠ slot) := by
    rw [Unclaimed.filter_shown, h, Unclaimed.filter_shown]
  unfold claim
  generalize left.lookup slot = part at found ⊢
  generalize left'.lookup slot = part' at found ⊢
  cases part with
  | none =>
    cases part' with
    | none => exact .ok ⟨rfl, h⟩
    | some => cases found
  | some part =>
    cases part' with
    | none => cases found
    | some part' =>
      dsimp only
      rw [Option.map_some, Option.map_some, Option.some_inj] at found
      rw [found]
      exact (Corresponds.refl _).bind fun _ _ same => .ok ⟨by rw [same], rest⟩

theorem claimAll_corresponds (h : left.shown k = left'.shown k) (slots : List Slot) :
    Corresponds Eq (ClaimedAlike k) (claimAll k slots left) (claimAll k slots left') := by
  induction slots generalizing left left' with
  | nil => exact .ok ⟨rfl, h⟩
  | cons slot slots ih =>
    refine (claim_corresponds h slot).bind ?_
    rintro ⟨arg, left⟩ ⟨_, left'⟩ ⟨rfl, h⟩
    cases arg with
    | none => exact .error rfl
    | some e =>
      refine (ih h).bind ?_
      rintro ⟨es, left⟩ ⟨_, left'⟩ ⟨rfl, h⟩
      exact .ok ⟨rfl, h⟩

theorem claimNamed_corresponds (h : left.shown k = left'.shown k) (slots : List (String × Slot)) :
    Corresponds Eq (ClaimedAlike k) (claimNamed k slots left) (claimNamed k slots left') := by
  induction slots generalizing left left' with
  | nil => exact .ok ⟨rfl, h⟩
  | cons slot slots ih =>
    refine (claim_corresponds h slot.2).bind ?_
    rintro ⟨arg, left⟩ ⟨_, left'⟩ ⟨rfl, h⟩
    refine (ih h).bind ?_
    rintro ⟨es, left⟩ ⟨_, left'⟩ ⟨rfl, rest⟩
    cases arg with
    | none => exact .ok ⟨rfl, rest⟩
    | some e => exact .ok ⟨rfl, rest⟩

/-- **A call means what it can tell of the tokens around its keyword.** -/
theorem call_congr {ps qs : List Part} {p : Nat}
    (h : Unclaimed.shown k (around ps p) = Unclaimed.shown k (around qs p)) :
    call k ps p = call k qs p := by
  refine Corresponds.eq ((claimAll_corresponds h _).bind ?_)
  rintro ⟨args, left⟩ ⟨_, left'⟩ ⟨rfl, h⟩
  refine (claimNamed_corresponds h _).bind ?_
  rintro ⟨named, left⟩ ⟨_, left'⟩ ⟨rfl, h⟩
  have rest (left : Unclaimed) : (left.mapM fun (slot, part) => argument k slot part) =
      (left.shown k).mapM (·.2) := by
    rw [Unclaimed.shown, List.mapM_map]
    rfl
  have slots (left : Unclaimed) : left.map (·.1) = (left.shown k).map (·.1) := by
    rw [Unclaimed.shown, List.map_map]
    rfl
  have empty (left : Unclaimed) : left.isEmpty = (left.shown k).isEmpty := by
    rw [Unclaimed.shown, List.isEmpty_map]
  have h : left.shown k = left'.shown k := h
  simp only [rest, slots, empty, h]
  exact .refl _

end Call

end Compile

/-! ### Where a kept text counts -/

/-- Whether the token at an index of a group sits in a literal slot of the group's keyword. -/
def Registry.literalAt (v : Registry) (ts : List Token) (i : Nat) : Bool :=
  match ts.zipIdx.filterMap (keywordAt? v) with
  | [(p, _, k)] => k.literal.contains (Slot.between i p)
  | _ => false

/-- Whether the token at a place, or one around it, sits in a literal slot.  There are none in
a list; `called` if the row is a group. -/
def Registry.literalAround (v : Registry) (called : Bool) (ts : List Token) : List Nat → Bool
  | [] => false
  | i :: path => (called && v.literalAt ts i) ||
    match ts[i]? with
    | some (.group items _) => v.literalAround true items path
    | some (.list items _) => v.literalAround false items path
    | _ => false

namespace Compile

section Row

variable {v : Registry} {lone : String → Bool → Option Compiled}
  {front back items items' : List Token} {raw raw' : String} {b : Bracket}

theorem keywordAt?_token (i : Nat) : keywordAt? v (b.token items raw, i) = none := by
  cases b <;> rfl

/-- A row has the same keywords whatever stands in a bracket of it. -/
theorem keywords_congr :
    (front ++ b.token items raw :: back).zipIdx.filterMap (keywordAt? v) =
      (front ++ b.token items' raw' :: back).zipIdx.filterMap (keywordAt? v) := by
  simp [List.zipIdx_append, keywordAt?_token]

/-- Outside of literal slots a call can tell of a token what it means, and no more. -/
theorem shown_around_congr {k : Keyword} {p : Nat}
    (same : token v lone (b.token items raw) = token v lone (b.token items' raw'))
    (code : k.literal.contains (Slot.between front.length p) = false) :
    Unclaimed.shown k (around (parts v lone (front ++ b.token items raw :: back)) p) =
      Unclaimed.shown k (around (parts v lone (front ++ b.token items' raw' :: back)) p) := by
  have arg : argument k (Slot.between front.length p)
        ⟨b.token items raw, token v lone (b.token items raw)⟩ =
      argument k (Slot.between front.length p)
        ⟨b.token items' raw', token v lone (b.token items' raw')⟩ := by
    simp only [argument, code, Bool.false_eq_true, if_false, same]
  simp only [Unclaimed.shown, around, parts_eq_map, List.map_append, List.map_cons,
    List.zipIdx_append, List.zipIdx_cons, List.filter_append, List.filter_cons, List.length_map,
    Nat.zero_add]
  split
  · simp [arg]
  · rfl

theorem mapM_code_congr
    (same : token v lone (b.token items raw) = token v lone (b.token items' raw')) :
    (parts v lone (front ++ b.token items raw :: back)).mapM (·.code) =
      (parts v lone (front ++ b.token items' raw' :: back)).mapM (·.code) := by
  simp only [parts_eq_map, List.mapM_map, List.mapM_append, List.mapM_cons, Function.comp_apply,
    same]

theorem assemble_congr
    (same : token v lone (b.token items raw) = token v lone (b.token items' raw'))
    (code : v.literalAt (front ++ b.token items raw :: back) front.length = false) (root : Bool) :
    assemble v (parts v lone (front ++ b.token items raw :: back)) root =
      assemble v (parts v lone (front ++ b.token items' raw' :: back)) root := by
  have keywords : (front ++ b.token items' raw' :: back).zipIdx.filterMap (keywordAt? v) =
      (front ++ b.token items raw :: back).zipIdx.filterMap (keywordAt? v) := keywords_congr
  rw [assemble, assemble, keywordsIn_parts, keywordsIn_parts, keywords]
  rw [Registry.literalAt] at code
  split
  · rw [mapM_code_congr same]
  · next p w k one =>
    rw [one] at code
    exact call_congr (shown_around_congr same code)
  · rfl

/-- A row that is no lone group is put together from its parts. -/
theorem group_eq_assemble (h : front ≠ [] ∨ back ≠ [] ∨ b = .square) (root : Bool) :
    group v lone (front ++ b.token items raw :: back) root =
      assemble v (parts v lone (front ++ b.token items raw :: back)) root := by
  match front, back, b with
  | [], [], .square => simp only [List.nil_append, Bracket.token, group, parts]
  | [], [], .round => simp at h
  | [], t :: ts, _ => exact group_of_two ..
  | [t], _, _ => exact group_of_two ..
  | t :: u :: ts, _, _ => exact group_of_two ..

theorem group_congr
    (same : token v lone (b.token items raw) = token v lone (b.token items' raw'))
    (inside : b = .round → ∀ root, group v lone items root = group v lone items' root)
    (code : v.literalAt (front ++ b.token items raw :: back) front.length = false) (root : Bool) :
    group v lone (front ++ b.token items raw :: back) root =
      group v lone (front ++ b.token items' raw' :: back) root := by
  by_cases h : front ≠ [] ∨ back ≠ [] ∨ b = .square
  · rw [group_eq_assemble h, group_eq_assemble h, assemble_congr same code]
  · simp only [not_or, Decidable.not_not] at h
    obtain ⟨rfl, rfl, round⟩ := h
    cases b with
    | round => exact inside rfl root
    | square => exact absurd rfl round

/-- Around a place inside a bracket there are the bracket, and what is around the place in it. -/
theorem literalAround_token (called : Bool) (path : List Nat) :
    v.literalAround called (front ++ b.token items raw :: back) (front.length :: path) =
      (called && v.literalAt (front ++ b.token items raw :: back) front.length ||
        v.literalAround (b = .round) items path) := by
  have there : (front ++ b.token items raw :: back)[front.length]? =
      some (b.token items raw) := by
    simp
  rw [Registry.literalAround, there]
  cases b <;> rfl

/-- **A kept text is not part of what a script means**, unless it sits in a literal slot, or
a token around it does. -/
theorem group_textsDiffer {path : List Nat} {ts us : List Token} (h : TextsDiffer path ts us) :
    (v.literalAround true ts path = false →
      ∀ root, group v lone ts root = group v lone us root) ∧
    (v.literalAround false ts path = false →
      (parts v lone ts).mapM (·.code) = (parts v lone us).mapM (·.code)) := by
  induction h with
  | @here front back items raw raw' b =>
    have same : token v lone (b.token items raw) = token v lone (b.token items raw') := by
      cases b <;> rfl
    refine ⟨fun code root => ?_, fun _ => mapM_code_congr same⟩
    rw [Registry.literalAround, Bool.or_eq_false_iff, Bool.true_and] at code
    exact group_congr same (fun _ _ => rfl) code.1 root
  | @inside front back items items' raw raw' path b _ ih =>
    have same (code : v.literalAround (b = .round) items path = false) :
        token v lone (b.token items raw) = token v lone (b.token items' raw') := by
      cases b with
      | round => exact ih.1 code false
      | square =>
        have items : token v lone (.list items raw) = token v lone (.list items' raw') := by
          rw [token, token, ih.2 code]
        exact items
    constructor
    · intro code root
      rw [literalAround_token, Bool.or_eq_false_iff, Bool.true_and] at code
      refine group_congr (same code.2) (fun round => ih.1 ?_) code.1 root
      simpa [round] using code.2
    · intro code
      rw [literalAround_token, Bool.false_and, Bool.false_or] at code
      exact mapM_code_congr (same code)

end Row
end Compile

end Tabletop
