/-
# Written slots: which texts are read, and as what

A slot is written `$n` or `-$n`: that is what messages ask for, and what `Slot.text` keeps
to.  The number behind the `$` is read as any unsigned number, though, and one of those may
carry a `+`.  So two languages are read (`Slot.Written`), the plain one and the one with a
`+` behind the `$`, and nothing else is (`Slot.read_eq_ok_iff`).

The two have no text in common, as a `+` is no digit.  A text is therefore read against the
plain language exactly if it is in the other (`Slot.reading_exact`).  A slot that was read
is in reach, whichever way it was written, so its text is plain and reads back.
-/

import Tabletop.Script.Keyword

namespace Tabletop

namespace Integer

/-- What an unsigned number may carry in front. -/
def marks : List (List Char) := [[], ['+']]

variable {text : List Char} {n : Nat}

theorem readNatural?_eq_some_iff : readNatural? text = some n ↔
    text ≠ [] ∧ (∀ c ∈ text, c.isDigit = true) ∧ Nat.ofDigitChars 10 text 0 = n := by
  simp [readNatural?, and_assoc]

/-- An unsigned number is a natural one behind a mark. -/
theorem readUnsigned?_eq_some_iff : readUnsigned? text = some n ↔
    ∃ mark ∈ marks, ∃ digits, text = mark ++ digits ∧ readNatural? digits = some n := by
  unfold readUnsigned?
  split
  · next digits =>
    -- Digits alone do not start with a `+`.
    have signed : readNatural? ('+' :: digits) = none := by simp [readNatural?]
    simp [marks, signed]
  · next unsigned =>
    have unmarked (digits : List Char) (same : text = '+' :: digits) :
        readNatural? digits = some n → readNatural? text = some n :=
      (unsigned digits same).elim
    simpa [marks] using unmarked

end Integer

namespace Slot

/-- Digits of a distance in reach: one or more ASCII digits, with a value from 1 to
65535. -/
structure Distance (digits : List Char) (n : Nat) : Prop where
  filled : digits ≠ []
  digit : ∀ c ∈ digits, c.isDigit = true
  value : Nat.ofDigitChars 10 digits 0 = n
  pos : 1 ≤ n
  le : n ≤ 65535

/-- The written forms of slots, with a mark between the `$` and the digits. -/
inductive Written (mark : List Char) : List Char → Slot → Prop
  | after {digits n} : Distance digits n → Written mark ('$' :: (mark ++ digits)) (.after n)
  | before {digits n} : Distance digits n →
      Written mark ('-' :: '$' :: (mark ++ digits)) (.before n)

variable {mark text : List Char} {slot slot' : Slot} {n : Nat}

theorem distance_iff {digits : List Char} : Distance digits n ↔
    Integer.readNatural? digits = some n ∧ 1 ≤ n ∧ n ≤ 65535 := by
  rw [Integer.readNatural?_eq_some_iff]
  constructor
  · rintro ⟨filled, digit, value, pos, le⟩
    exact ⟨⟨filled, digit, value⟩, pos, le⟩
  · rintro ⟨⟨filled, digit, value⟩, pos, le⟩
    exact ⟨filled, digit, value, pos, le⟩

/-- **A distance is read behind a `$`**, which a mark may follow. -/
theorem distance?_eq_some_iff : distance? text = some n ↔
    ∃ mark ∈ Integer.marks, ∃ digits, text = '$' :: (mark ++ digits) ∧ Distance digits n := by
  have reach : (0 < n && n ≤ farthest) = true ↔ 1 ≤ n ∧ n ≤ 65535 := by
    rw [Bool.and_eq_true, decide_eq_true_iff, decide_eq_true_iff]
    exact Iff.rfl
  simp only [distance_iff]
  unfold distance?
  split
  · next unsigned =>
    rw [Option.filter_eq_some_iff, reach, Integer.readUnsigned?_eq_some_iff]
    constructor
    · rintro ⟨⟨mark, mem, digits, rfl, read⟩, bounds⟩
      exact ⟨mark, mem, digits, rfl, read, bounds⟩
    · rintro ⟨mark, mem, digits, same, read, bounds⟩
      cases same
      exact ⟨⟨mark, mem, digits, rfl, read⟩, bounds⟩
  · next other =>
    constructor
    · intro h
      cases h
    · rintro ⟨mark, _, digits, rfl, _⟩
      exact absurd rfl (other _)

/-- What is written behind a `-`. -/
theorem written_cons_iff {rest : List Char} : Written mark ('-' :: rest) slot ↔
    ∃ digits n, rest = '$' :: (mark ++ digits) ∧ Distance digits n ∧ slot = .before n := by
  constructor
  · intro h
    cases h with
    | before distance => exact ⟨_, _, rfl, distance, rfl⟩
  · rintro ⟨digits, n, rfl, distance, rfl⟩
    exact .before distance

/-- What is written without a `-` in front. -/
theorem written_iff (unsigned : ∀ rest, text ≠ '-' :: rest) : Written mark text slot ↔
    ∃ digits n, text = '$' :: (mark ++ digits) ∧ Distance digits n ∧ slot = .after n := by
  constructor
  · intro h
    cases h with
    | after distance => exact ⟨_, _, rfl, distance, rfl⟩
    | before => exact absurd rfl (unsigned _)
  · rintro ⟨digits, n, rfl, distance, rfl⟩
    exact .after distance

/-- **The texts that are read are the written ones**, with or without a mark. -/
theorem ofText?_eq_some_iff {source : String} : ofText? source = some slot ↔
    ∃ mark ∈ Integer.marks, Written mark source.toList slot := by
  have gather {text : List Char} {place : Nat → Slot} :
      (distance? text).map place = some slot ↔ ∃ mark ∈ Integer.marks, ∃ digits n,
        text = '$' :: (mark ++ digits) ∧ Distance digits n ∧ slot = place n := by
    rw [Option.map_eq_some_iff]
    constructor
    · rintro ⟨n, read, rfl⟩
      obtain ⟨mark, mem, digits, same, distance⟩ := distance?_eq_some_iff.1 read
      exact ⟨mark, mem, digits, n, same, distance, rfl⟩
    · rintro ⟨mark, mem, digits, n, same, distance, rfl⟩
      exact ⟨n, distance?_eq_some_iff.2 ⟨mark, mem, digits, same, distance⟩, rfl⟩
  unfold ofText?
  split
  · next rest signed => simp only [signed, gather, written_cons_iff]
  · next unsigned => simp only [gather, written_iff unsigned]

theorem read_eq_ok_iff {source : String} : read source = .ok slot ↔
    Written [] source.toList slot ∨ Written ['+'] source.toList slot := by
  have languages : ofText? source = some slot ↔
      Written [] source.toList slot ∨ Written ['+'] source.toList slot := by
    simp [ofText?_eq_some_iff, Integer.marks]
  rw [← languages, read]
  cases ofText? source <;> simp

/-- No text is written both ways. -/
theorem Written.unmarked (h : Written [] text slot) : ¬ Written ['+'] text slot' := by
  have plus : Char.isDigit '+' = false := by decide
  intro k
  cases h with
  | after distance =>
    cases k with
    | after => exact Bool.false_ne_true (plus ▸ distance.digit '+' List.mem_cons_self)
  | before distance =>
    cases k with
    | before => exact Bool.false_ne_true (plus ▸ distance.digit '+' List.mem_cons_self)

/-- A written slot is in reach. -/
theorem Written.reach (h : Written mark text slot) :
    slot.offset ≠ 0 ∧ slot.offset.natAbs ≤ farthest := by
  cases h with
  | after distance | before distance =>
    have pos := distance.pos
    have le := distance.le
    simp only [Slot.after, Slot.before, farthest]
    omega

/-- **Slots are read off the texts `$n` and `-$n`, and off those with a `+` behind the
`$`.**  A text is read as the plain forms say exactly if it is not of the others.  If it
was read, the text of the slot reads as the same slot again. -/
theorem reading_exact (source : String) :
    (∀ slot, read source = .ok slot ↔
      Written [] source.toList slot ∨ Written ['+'] source.toList slot) ∧
    ((∀ slot, read source = .ok slot ↔ Written [] source.toList slot) ↔
      ∀ slot, ¬ Written ['+'] source.toList slot) ∧
    ∀ slot, read source = .ok slot → read slot.text = .ok slot := by
  refine ⟨fun _ => read_eq_ok_iff, ⟨fun plain slot marked => ?_, fun unmarked slot => ?_⟩,
    fun slot h => ?_⟩
  · have found : read source = .ok slot := read_eq_ok_iff.2 (.inr marked)
    exact ((plain slot).1 found).unmarked marked
  · rw [read_eq_ok_iff, or_iff_left (unmarked slot)]
  · have reach : slot.offset ≠ 0 ∧ slot.offset.natAbs ≤ farthest := by
      rcases read_eq_ok_iff.1 h with written | written <;> exact written.reach
    rw [read, ofText?_text reach.1 reach.2]

/-- Two tokens before the keyword, written with a `+`. -/
theorem reading_exact_before : read "-$+2" = .ok (.before 2) ∧ read "-$2" = .ok (.before 2) :=
  ⟨rfl, (reading_exact "-$+2").2.2 (.before 2) rfl⟩

/-- **A `+` is let in**: `$+1` is read, and is neither `$n` nor `-$n`. -/
theorem plus_read : read "$+1" = .ok (.after 1) ∧ ∀ slot, ¬ Written [] "$+1".toList slot := by
  have distance : Distance ['1'] 1 :=
    ⟨List.cons_ne_nil _ _, List.forall_mem_singleton.2 rfl, rfl, by decide, by decide⟩
  have marked : Written ['+'] "$+1".toList (.after 1) := .after distance
  exact ⟨rfl, fun slot plain => plain.unmarked marked⟩

end Slot
end Tabletop
