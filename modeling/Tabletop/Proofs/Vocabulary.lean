/-
# The vocabulary: which words are keywords

A registry is built by adding keywords, so its words are the names of the keywords
that were added.  None of the usual keywords looks like a number.
-/

import Tabletop.Script

namespace Tabletop
namespace Registry

/-- A word is a keyword if there is a keyword for it. -/
theorem isKeyword_eq (r : Registry) (w : String) : r.isKeyword w = (r.keyword? w).isSome :=
  Std.ExtTreeMap.contains_eq_isSome_getElem?

theorem isKeyword_register (r : Registry) (k : Keyword) (w : String) :
    (r.register k).isKeyword w = true ↔ w = k.name ∨ r.isKeyword w = true := by
  rw [isKeyword, register, Std.ExtTreeMap.contains_insert, Bool.or_eq_true, beq_iff_eq,
    Std.compare_eq_iff_eq, eq_comm (a := w), isKeyword]

/-- The words of a registry are the names of the keywords it was built from. -/
theorem isKeyword_foldl_register (ks : List Keyword) (r : Registry) (w : String) :
    (ks.foldl register r).isKeyword w = true ↔ w ∈ ks.map (·.name) ∨ r.isKeyword w = true := by
  induction ks generalizing r with
  | nil => simp
  | cons k ks ih =>
    rw [List.foldl_cons, ih, isKeyword_register, List.map_cons, List.mem_cons, or_left_comm,
      or_assoc]

theorem isKeyword_standard {w : String} :
    standard.isKeyword w = true ↔ w ∈ standardKeywords.map (·.name) := by
  rw [standard, isKeyword_foldl_register, or_iff_left]
  simp [isKeyword]

theorem keyword?_register (r : Registry) (k : Keyword) (w : String) :
    (r.register k).keyword? w = if k.name = w then some k else r.keyword? w := by
  rw [keyword?, register, Std.ExtTreeMap.getElem?_insert, keyword?]
  simp only [Std.compare_eq_iff_eq]

/-- The keywords of a registry are those it was built from. -/
theorem mem_of_keyword?_foldl (ks : List Keyword) {r : Registry} {w : String} {k : Keyword}
    (h : (ks.foldl register r).keyword? w = some k) : k ∈ ks ∨ r.keyword? w = some k := by
  induction ks generalizing r with
  | nil => exact .inr h
  | cons k' ks ih =>
    rcases ih h with mem | h
    · exact .inl (List.mem_cons_of_mem _ mem)
    · rw [keyword?_register] at h
      split at h
      · cases h
        exact .inl List.mem_cons_self
      · exact .inr h

theorem mem_standardKeywords {w : String} {k : Keyword} (h : standard.keyword? w = some k) :
    k ∈ standardKeywords := by
  refine (mem_of_keyword?_foldl _ h).resolve_right ?_
  simp [keyword?]

/-- **No number is one of the usual keywords.** -/
theorem not_isKeyword_of_number {w : String} {n : Int} (h : Integer.read? w.toList = some n) :
    standard.isKeyword w = false := by
  have unread : ∀ w ∈ standardKeywords.map (·.name), Integer.read? w.toList = none := by decide
  rw [← Bool.not_eq_true, isKeyword_standard]
  intro usual
  rw [unread w usual] at h
  cases h

end Registry
end Tabletop
