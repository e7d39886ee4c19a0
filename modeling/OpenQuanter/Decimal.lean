/-
# Decimal numerals

Numbers as their decimal digits, and digits read back.

Nothing here names the program under verification.
-/
import Mathlib

namespace Decimal

/-- The decimal digits of a number, most significant first. -/
def digits (n : Nat) : List Char := Nat.toDigits 10 n

/-- The number some digits stand for; digits only, and at least one. -/
def parse (cs : List Char) : Option Nat :=
  if !cs.isEmpty && cs.all Char.isDigit then some (Nat.ofDigitChars 10 cs 0) else none

theorem digits_ne_nil (n : Nat) : digits n ≠ [] := Nat.toDigits_ne_nil

theorem isDigit_of_mem_digits {n : Nat} {c : Char} (h : c ∈ digits n) : c.isDigit = true :=
  Nat.isDigit_of_mem_toDigits (by decide) (by decide) h

theorem all_isDigit_digits (n : Nat) : (digits n).all Char.isDigit = true :=
  List.all_eq_true.mpr fun _ h => isDigit_of_mem_digits h

theorem parse_digits (n : Nat) : parse (digits n) = some n := by
  have hne : (digits n).isEmpty = false := by simpa using digits_ne_nil n
  unfold parse
  rw [hne, all_isDigit_digits]
  exact congrArg some Nat.ofDigitChars_ten_toDigits

/-- No two numbers have the same digits. -/
theorem digits_inj {n m : Nat} (h : digits n = digits m) : n = m := by
  apply Option.some.inj
  rw [← parse_digits n, h, parse_digits]

theorem toList_toString (n : Nat) : (toString n).toList = digits n := by
  rw [Nat.toString_eq_ofList_toDigits, String.toList_ofList]
  rfl

end Decimal
