/-
**Numbers in texts.**

Main definitions:

* `Upkeep.Text.fitsSigned`, `Upkeep.Text.wordCount` — what fits into 64 bits;
* `Upkeep.Text.digitsValue?` — the value of a text of decimal digits;
* `Upkeep.Text.integer?` — the value of a text of digits behind at most one sign, if it fits into 64
  bits;
* `Upkeep.Text.word?` — the value of a text of digits behind at most a plus sign, if it fits into 64
  bits without a sign.
-/

set_option relaxedAutoImplicit false
set_option autoImplicit false

namespace Upkeep

namespace Text

/-- The number of values that 64 bits can have. -/
def wordCount : Nat := 18446744073709551616

/-- Whether an integer fits into 64 bits with a sign. -/
def fitsSigned (n : Int) : Bool := -9223372036854775808 ≤ n && n < 9223372036854775808

/-- The value of decimal digits, read behind the digits with value `n`. -/
def digitsFrom (n : Nat) : List Char → Option Nat
  | [] => some n
  | c :: s => if c.isDigit then digitsFrom (n * 10 + (c.toNat - '0'.toNat)) s else none

/-- The value of a text of decimal digits, at least one of them. -/
def digitsValue? (s : List Char) : Option Nat := if s.isEmpty then none else digitsFrom 0 s

theorem digitsFrom_eq {n : Nat} {s : List Char} (h : ∀ c ∈ s, c.isDigit = true) :
    digitsFrom n s = some (Nat.ofDigitChars 10 s n) := by
  induction s generalizing n with
  | nil => simp [digitsFrom]
  | cons c s ih =>
      obtain ⟨hc, hs⟩ := List.forall_mem_cons.1 h
      rw [digitsFrom, if_pos hc, ih hs, Nat.ofDigitChars_cons, Nat.mul_comm]

/-- A number is read back from its digits. -/
@[simp] theorem digitsValue?_toDigits (n : Nat) : digitsValue? (Nat.toDigits 10 n) = some n := by
  have hd : ∀ c ∈ Nat.toDigits 10 n, c.isDigit = true := fun c hc =>
    Nat.isDigit_of_mem_toDigits (by decide) (by decide) hc
  rw [digitsValue?, if_neg (by simp [List.isEmpty_iff, Nat.toDigits_ne_nil]), digitsFrom_eq hd,
    Nat.ofDigitChars_ten_toDigits]

/-- The value of a text of digits behind at most one sign, if it fits into 64 bits. -/
def integer? (s : List Char) : Option Int :=
  let value : Option Int :=
    match s with
    | '-' :: r => (digitsValue? r).map fun n => -(n : Int)
    | '+' :: r => (digitsValue? r).map fun n => (n : Int)
    | r => (digitsValue? r).map fun n => (n : Int)
  value.filter fitsSigned

/-- The value of a text of digits behind at most a plus sign, if it fits into 64 bits without a
sign. -/
def word? (s : List Char) : Option Nat :=
  let value := match s with
    | '+' :: r => digitsValue? r
    | r => digitsValue? r
  value.filter (· < wordCount)

end Text

end Upkeep
