/-
**Decimals as fractions.**

A decimal is a fraction in which one of numerator and denominator takes all of its power of ten.
Its digits are those of a numeral that denotes the coefficient, and how many there are says how
large the coefficient is, so where the point falls says how large the decimal is.

Main definitions:

* `Decimal.numerator`, `Decimal.denominator` — the fraction that a decimal is.

Main results:

* `Decimal.value_eq_div`, `Decimal.value_eq_zpow` — the value as a fraction and with its power;
* `Decimal.exists_numeral` — the digits of a whole number;
* `Decimal.le_numerator_of_point`, `Decimal.numerator_lt_of_point` — **the size of a decimal**.
-/

import LogicTerms.Decimal
import LogicTerms.Proofs.Literal.Numeral
import Mathlib.Algebra.Order.Field.Rat
import Mathlib.Data.Rat.Cast.Order
import Mathlib.Tactic.FieldSimp

set_option relaxedAutoImplicit false
set_option autoImplicit false

namespace LogicTerms.Decimal

/-! ### The fraction -/

/-- The coefficient, with the power of ten if that is whole. -/
def numerator (d : Decimal) : ℕ := d.coefficient * 10 ^ d.exponent.toNat

/-- The power of ten if that is a fraction, and one otherwise. -/
def denominator (d : Decimal) : ℕ := 10 ^ (-d.exponent).toNat

theorem denominator_pos (d : Decimal) : 0 < d.denominator := Nat.pow_pos (by decide)

theorem value_eq_div (d : Decimal) : d.value = (d.numerator : ℚ) / d.denominator := by
  rw [value, numerator, denominator]
  split
  · have hzero : (-d.exponent).toNat = 0 := by omega
    rw [hzero, Nat.pow_zero, Nat.cast_one, div_one]
  · have hzero : d.exponent.toNat = 0 := by omega
    rw [hzero, Nat.pow_zero, Nat.mul_one, Rat.mkRat_eq_div]
    push_cast
    rfl

theorem value_eq_zpow (d : Decimal) : d.value = d.coefficient * (10 : ℚ) ^ d.exponent := by
  rw [value_eq_div, numerator, denominator]
  push_cast
  obtain ⟨n, hn | hn⟩ := Int.eq_nat_or_neg d.exponent
  · have hzero : (-d.exponent).toNat = 0 := by omega
    rw [hzero, pow_zero, div_one, hn, Int.toNat_natCast, zpow_natCast]
  · have hzero : d.exponent.toNat = 0 := by omega
    rw [hzero, pow_zero, mul_one, hn, neg_neg, Int.toNat_natCast, zpow_neg, zpow_natCast]
    rfl

/-! ### The digits -/

/-- The digits of a whole number are a numeral that denotes it. -/
theorem exists_numeral (n : ℕ) : ∃ k : Numeral 10, k.text = decimalDigits n ∧ k.value = n := by
  rw [decimalDigits_eq]
  exact Numeral.exists_toDigits (by decide) n

variable {d : Decimal}

theorem length_digits_pos (d : Decimal) : 0 < d.digits.length :=
  List.length_pos_iff.2 d.digits_ne_nil

theorem coefficient_lt (d : Decimal) : d.coefficient < 10 ^ d.digits.length := by
  have hpos := d.length_digits_pos
  rw [digits, decimalDigits_eq] at hpos ⊢
  exact (Nat.length_toDigits_le_iff (by decide) hpos).1 le_rfl

theorem le_coefficient (h : d.coefficient ≠ 0) : 10 ^ (d.digits.length - 1) ≤ d.coefficient := by
  by_cases hone : d.digits.length - 1 = 0
  · rw [hone]
    omega
  · refine not_lt.1 fun hlt => ?_
    rw [digits, decimalDigits_eq] at hone hlt
    have := (Nat.length_toDigits_le_iff (by decide) (by omega)).2 hlt
    omega

/-! ### The size -/

/-- A decimal whose point falls behind `n + 1` digits is at least ten to the power `n`. -/
theorem le_numerator_of_point {n : ℕ} (h : d.coefficient ≠ 0) (hpoint : n + 1 ≤ d.point) :
    10 ^ n * d.denominator ≤ d.numerator := by
  have hpos := d.length_digits_pos
  rw [point] at hpoint
  calc 10 ^ n * d.denominator = 10 ^ (n + (-d.exponent).toNat) := by rw [denominator, Nat.pow_add]
    _ ≤ 10 ^ (d.digits.length - 1 + d.exponent.toNat) :=
        Nat.pow_le_pow_right (by decide) (by omega)
    _ = 10 ^ (d.digits.length - 1) * 10 ^ d.exponent.toNat := Nat.pow_add 10 _ _
    _ ≤ d.numerator := Nat.mul_le_mul_right _ (le_coefficient h)

/-- A decimal whose point falls `n` zeros before its digits is below ten to the power `-n`. -/
theorem numerator_lt_of_point {n : ℕ} (hpoint : d.point ≤ -n) :
    10 ^ n * d.numerator < d.denominator := by
  rw [point] at hpoint
  calc 10 ^ n * d.numerator
      < 10 ^ n * (10 ^ d.digits.length * 10 ^ d.exponent.toNat) :=
        Nat.mul_lt_mul_of_pos_left
          (Nat.mul_lt_mul_of_pos_right d.coefficient_lt (Nat.pow_pos (by decide)))
          (Nat.pow_pos (by decide))
    _ = 10 ^ (n + d.digits.length + d.exponent.toNat) := by rw [Nat.pow_add, Nat.pow_add]; ring
    _ ≤ d.denominator := Nat.pow_le_pow_right (by decide) (by omega)

end LogicTerms.Decimal
