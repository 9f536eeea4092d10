/-
# Slots: where a keyword takes its arguments from

A slot is a signed distance from a keyword: `$1` is the token right after it,
`-$1` the token right before it.  A written slot is an optional `-`, a `$` and
a positive number of at most sixteen bits; the number may carry a `+`.
Slots are ordered by distance, so those before the keyword come first.
-/

import Tabletop.Integer

namespace Tabletop

/-- A signed distance from a keyword, in tokens. -/
structure Slot where
  offset : Int
deriving DecidableEq, Repr

namespace Slot

/-- Order by distance. -/
abbrev order : Slot → Slot → Ordering := compareOn Slot.offset

instance : Ord Slot := ⟨order⟩

instance : Std.TransOrd Slot := inferInstanceAs (Std.TransCmp order)

instance : Std.LawfulEqOrd Slot where
  eq_of_compare {a b} h := by
    obtain ⟨m⟩ := a
    obtain ⟨n⟩ := b
    have h : order ⟨m⟩ ⟨n⟩ = .eq := h
    simpa [order, compareOn, Std.LawfulEqCmp.compare_eq_iff_eq] using h

/-- The slot `n` tokens after the keyword. -/
def after (n : Nat) : Slot := ⟨n⟩

/-- The slot `n` tokens before the keyword. -/
def before (n : Nat) : Slot := ⟨-(n : Int)⟩

/-- The slot of the token at `index`, seen from a keyword at `keyword`. -/
def between (index keyword : Nat) : Slot := ⟨(index : Int) - keyword⟩

/-- The written form: the distance after a `$`, its sign in front. -/
def text (slot : Slot) : String :=
  (if slot.offset < 0 then "-$" else "$") ++ Integer.digits slot.offset.natAbs

/-- The greatest distance that can be written. -/
def farthest : Nat := 65535

/-- The distance written after a `$`. -/
def distance? (text : List Char) : Option Nat :=
  match text with
  | '$' :: digits => (Integer.readUnsigned? digits).filter fun n => 0 < n && n ≤ farthest
  | _ => none

/-- The slot with a written form, if the text is one. -/
def ofText? (text : String) : Option Slot :=
  match text.toList with
  | '-' :: rest => (distance? rest).map before
  | rest => (distance? rest).map after

theorem distance?_digits {n : Nat} (h : 0 < n) (h' : n ≤ farthest) :
    distance? ('$' :: Nat.toDigits 10 n) = some n := by
  simp [distance?, Integer.readUnsigned?_toDigits, h, h']

/-- **A written slot reads back**, unless it is the keyword itself or too far. -/
theorem ofText?_text {slot : Slot} (h : slot.offset ≠ 0) (h' : slot.offset.natAbs ≤ farthest) :
    ofText? slot.text = some slot := by
  obtain ⟨n⟩ := slot
  simp only at h h'
  have hd := distance?_digits (Int.natAbs_pos.2 h) h'
  by_cases hn : n < 0
  · have hb : before n.natAbs = ⟨n⟩ := congrArg Slot.mk (by omega)
    simp [text, ofText?, Integer.digits, hn, hd, hb]
  · have ha : after n.natAbs = ⟨n⟩ := congrArg Slot.mk (by omega)
    simp [text, ofText?, Integer.digits, hn, hd, ha]

end Slot
end Tabletop
