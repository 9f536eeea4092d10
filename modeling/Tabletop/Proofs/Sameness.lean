/-
# Sameness: when two values mean the same

Whether two values mean the same is decided case by case: names by their texts, a truth
value against an integer as 0 or 1, lists and tuples item by item, everything else by
equality.  All of this is equality once the values are written one way only: with strings
for references, integers for truth values, and texts for scripts, at every depth
(`Value.normal`).

Two values are the same exactly if their normal forms are equal (`Value.same_iff_normal`),
and equal values have equal normal forms (`Value.normal_eq_of_beq`).  So sameness is an
equivalence coarser than equality, inside lists as well (`Value.same_exact`).
-/

import Tabletop.Value

namespace Tabletop
namespace Value

mutual

/-- The normal form of a value: each reference is the string of its text and each truth value
the integer 0 or 1, at every depth of lists and tuples; of a script only the text is kept. -/
def normal : Value → Value
  | .none => .none
  | .bool b => .int (if b then 1 else 0)
  | .int n => .int n
  | .str text | .ref text => .str text
  | .list items => .list (normalAll items)
  | .tuple items => .tuple (normalAll items)
  | .script s => .script ⟨s.raw, .literal .none⟩

/-- The normal forms of several values. -/
def normalAll : List Value → List Value
  | [] => []
  | v :: vs => normal v :: normalAll vs

end

theorem beq_eq (a b : Value) : (a == b) = beq a b := rfl

theorem script_beq (s t : Script) : (s == t) = (s.raw == t.raw) := rfl

/-- Truth values differ as integers. -/
theorem bit_inj {a b : Bool} : (if a then 1 else 0 : Int) = (if b then 1 else 0) ↔ a = b := by
  cases a <;> cases b <;> decide

mutual

/-- **Values are the same if and only if their normal forms are equal.** -/
theorem same_iff_normal : ∀ a b : Value, a.same b = true ↔ a.normal = b.normal
  | .none, b | .bool _, b | .int _, b | .str _, b | .ref _, b | .script _, b => by
    cases b <;> simp [same, normal, beq_eq, beq, script_beq, bit_inj]
  | .list as, b => by
    cases b with
    | list bs => rw [same, normal, normal, sameAll_iff_normalAll as bs, list.injEq]
    | _ => simp [same, normal, beq_eq, beq]
  | .tuple as, b => by
    cases b with
    | tuple bs => rw [same, normal, normal, sameAll_iff_normalAll as bs, tuple.injEq]
    | _ => simp [same, normal, beq_eq, beq]

/-- Rows of values are the same item by item if and only if their normal forms are equal. -/
theorem sameAll_iff_normalAll :
    ∀ as bs : List Value, sameAll as bs = true ↔ normalAll as = normalAll bs
  | [], [] => iff_of_true rfl rfl
  | [], _ :: _ | _ :: _, [] => by simp [sameAll, normalAll]
  | a :: as, b :: bs => by
    rw [sameAll, normalAll, normalAll, Bool.and_eq_true, same_iff_normal a b,
      sameAll_iff_normalAll as bs, List.cons.injEq]

end

mutual

/-- Equal values have equal normal forms. -/
theorem normal_eq_of_beq : ∀ a b : Value, (a == b) = true → a.normal = b.normal
  | .none, b, h | .bool _, b, h | .int _, b, h | .str _, b, h | .ref _, b, h |
    .script _, b, h => by
    cases b <;> simp_all [normal, beq_eq, beq, script_beq]
  | .list as, b, h => by
    cases b with
    | list bs => rw [normal, normal, normalAll_eq_of_beqAll as bs h]
    | _ => cases h
  | .tuple as, b, h => by
    cases b with
    | tuple bs => rw [normal, normal, normalAll_eq_of_beqAll as bs h]
    | _ => cases h

/-- Rows of values that are equal item by item have equal normal forms. -/
theorem normalAll_eq_of_beqAll :
    ∀ as bs : List Value, beqAll as bs = true → normalAll as = normalAll bs
  | [], [], _ => rfl
  | [], _ :: _, h | _ :: _, [], h => nomatch h
  | a :: as, b :: bs, h => by
    rw [beqAll, Bool.and_eq_true] at h
    rw [normalAll, normalAll, normal_eq_of_beq a b h.1, normalAll_eq_of_beqAll as bs h.2]

end

/-- **Sameness is equality of normal forms.**  So it is an equivalence, and equal values are
the same. -/
theorem same_exact :
    (∀ a b : Value, a.same b = true ↔ a.normal = b.normal) ∧
    Equivalence (fun a b : Value => a.same b = true) ∧
    ∀ a b : Value, (a == b) = true → a.same b = true := by
  refine ⟨same_iff_normal, ⟨fun a => ?_, fun h => ?_, fun h h' => ?_⟩, fun a b h => ?_⟩
  · exact (same_iff_normal a a).2 rfl
  · exact (same_iff_normal ..).2 ((same_iff_normal ..).1 h).symm
  · exact (same_iff_normal ..).2 (((same_iff_normal ..).1 h).trans ((same_iff_normal ..).1 h'))
  · exact (same_iff_normal a b).2 (normal_eq_of_beq a b h)

/-- Truth values and references count as integers and strings inside lists, and `none` as
nothing else. -/
example : (list [.ref "orc", .tuple [.bool true]]).same (.list [.str "orc", .tuple [.int 1]]) ∧
    (list [.none]).same (.list [.bool false]) = false := by decide

end Value
end Tabletop
