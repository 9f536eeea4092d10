/-
# Game integers

Scripts count in integers of 64 bits with a sign.  They are kept as `Int`
together with the rule that a result outside `[-2^63, 2^63)` is refused
(`Integer.checked`), never wrapped.  Written integers (`Integer.read?`) are an
optional sign and ASCII digits; the sign may be `+`, leading zeros are allowed,
and the value has to be in range.
-/

namespace Tabletop
namespace Integer

/-- The least game integer. -/
def least : Int := -9223372036854775808

/-- The greatest game integer. -/
def greatest : Int := 9223372036854775807

/-- The integers a game can hold. -/
def InRange (n : Int) : Prop := least ≤ n ∧ n ≤ greatest

instance (n : Int) : Decidable (InRange n) := inferInstanceAs (Decidable (_ ∧ _))

/-- The result of an operation, refused when it leaves the range. -/
def checked (n : Int) : Option Int := if InRange n then some n else none

theorem checked_eq_some_iff {n m : Int} : checked n = some m ↔ InRange n ∧ n = m := by
  unfold checked; split <;> simp_all

theorem checked_eq_none_iff {n : Int} : checked n = none ↔ ¬ InRange n := by
  unfold checked; split <;> simp_all

/-- One less, stopping at the least integer. -/
def pred (n : Int) : Int := max (n - 1) least

theorem pred_eq_sub_one {n : Int} (h : least < n) : pred n = n - 1 := by
  unfold pred; omega

/-- One or more ASCII digits. -/
def readNatural? (text : List Char) : Option Nat :=
  if !text.isEmpty && text.all Char.isDigit then some (Nat.ofDigitChars 10 text 0) else none

/-- A natural number that may carry a `+`. -/
def readUnsigned? : List Char → Option Nat
  | '+' :: digits => readNatural? digits
  | text => readNatural? text

/-- A written integer in range: an optional sign, then digits. -/
def read? (text : List Char) : Option Int :=
  match text with
  | '-' :: digits => (readNatural? digits).bind fun n => checked (-(n : Int))
  | _ => (readUnsigned? text).bind fun n => checked n

/-- A natural number in decimal digits. -/
def digits (n : Nat) : String := String.ofList (Nat.toDigits 10 n)

/-- An integer in decimal digits, after a `-` if it is negative. -/
def write : Int → String
  | .ofNat n => digits n
  | .negSucc n => "-" ++ digits (n + 1)

theorem readNatural?_toDigits (n : Nat) : readNatural? (Nat.toDigits 10 n) = some n := by
  have h : ∀ c ∈ Nat.toDigits 10 n, c.isDigit := fun c hc =>
    Nat.isDigit_of_mem_toDigits (by decide) (by decide) hc
  simp [readNatural?, Nat.toDigits_ne_nil, List.all_eq_true.2 h, Nat.ofDigitChars_ten_toDigits]

/-- Digits carry no sign. -/
theorem readUnsigned?_toDigits (n : Nat) : readUnsigned? (Nat.toDigits 10 n) = some n := by
  have h := readNatural?_toDigits n
  unfold readUnsigned?
  split
  · next digits e => simp [e, readNatural?] at h
  · exact h

/-- Digits read as what they write, if it is in range. -/
theorem read?_toDigits {n : Nat} (h : InRange n) : read? (Nat.toDigits 10 n) = some (n : Int) := by
  have e : read? (Nat.toDigits 10 n) =
      (readUnsigned? (Nat.toDigits 10 n)).bind fun n => checked n := by
    unfold read?
    split
    · next digits e => simpa [e, readNatural?] using readNatural?_toDigits n
    · rfl
  rw [e, readUnsigned?_toDigits]
  exact checked_eq_some_iff.2 ⟨h, rfl⟩

/-- Digits after a `-` read as the negative of what they write, if it is in range. -/
theorem read?_neg_toDigits {n : Nat} (h : InRange (-(n : Int))) :
    read? ('-' :: Nat.toDigits 10 n) = some (-(n : Int)) := by
  have e : read? ('-' :: Nat.toDigits 10 n) =
      (readNatural? (Nat.toDigits 10 n)).bind fun n => checked (-(n : Int)) := rfl
  rw [e, readNatural?_toDigits]
  exact checked_eq_some_iff.2 ⟨h, rfl⟩

/-- **A written integer reads back**, if it is in range. -/
theorem read?_write {n : Int} (h : InRange n) : read? (write n).toList = some n := by
  cases n with
  | ofNat m => simpa [write, digits] using read?_toDigits h
  | negSucc m =>
    have e : Int.negSucc m = -((m + 1 : Nat) : Int) := Int.negSucc_eq m
    have w : (write (.negSucc m)).toList = '-' :: Nat.toDigits 10 (m + 1) := by
      simp [write, digits]
    rw [w, e]
    exact read?_neg_toDigits (e ▸ h)

end Integer
end Tabletop
