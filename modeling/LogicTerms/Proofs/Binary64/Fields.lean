/-
**The values of doubles, read off their fields.**

The interchange form of a double has three fields: a sign bit, eleven bits of a biased exponent, and
52 bits of a fraction.  A full exponent field makes an infinity if the fraction is zero, and a NaN
otherwise.  An empty one makes a subnormal double, whose fraction is taken at the least exponent as it
is; at every other exponent the fraction has a leading one that is not stored.  This is the definition
of the format, which knows of no magnitudes and no units; that a finite double is a whole number of
units is a consequence.

Values with infinities are the rational numbers with a least and a greatest element.

Main definitions:

* `Binary64.signField`, `Binary64.exponentField`, `Binary64.fractionField` — the fields;
* `Binary64.fieldsValue` — the absolute value that exponent and fraction stand for;
* `Binary64.extended?` — the value of a double, which may be infinite; none if it is a NaN.

Main results:

* `Binary64.fieldsValue_eq_units` — the fields stand for the units at their magnitude;
* `Binary64.extended?_of_value?` — **the value of a finite double** is that of its fields;
* `Binary64.extended?_eq_none_iff` — only a NaN has none.
-/

import LogicTerms.Proofs.Binary64.Order
import Mathlib.Algebra.Order.Field.Power
import Mathlib.Order.WithBotTop
import Mathlib.Tactic.FieldSimp

set_option relaxedAutoImplicit false
set_option autoImplicit false

namespace LogicTerms.Binary64

variable {x : Binary64}

/-! ### Fields -/

/-- The sign bit. -/
def signField (x : Binary64) : ℕ := x.toBits / 2 ^ 63

/-- The eleven bits of the exponent. -/
def exponentField (x : Binary64) : ℕ := x.toBits / 2 ^ 52 % 2 ^ 11

/-- The 52 bits of the fraction. -/
def fractionField (x : Binary64) : ℕ := x.toBits % 2 ^ 52

theorem signField_eq (x : Binary64) : x.signField = if x.negative then 1 else 0 := by
  have := x.magnitude_lt
  rw [signField, toBits]
  split <;> omega

theorem exponentField_eq (x : Binary64) : x.exponentField = x.magnitude / 2 ^ 52 := by
  have := x.magnitude_lt
  rw [exponentField, toBits]
  split <;> omega

theorem fractionField_eq (x : Binary64) : x.fractionField = x.magnitude % 2 ^ 52 := by
  rw [fractionField, toBits]
  split <;> omega

/-! ### Values -/

/-- The absolute value of a finite double, from its exponent and its fraction. -/
def fieldsValue (exponent fraction : ℕ) : ℚ :=
  if exponent = 0 then fraction / 2 ^ 52 * 2 ^ (-1022 : ℤ)
  else (1 + fraction / 2 ^ 52) * 2 ^ ((exponent : ℤ) - 1023)

/-- The value of a double, in the rational numbers with two infinities. -/
def extended? (x : Binary64) : Option (WithBotTop ℚ) :=
  if x.exponentField = 2047 then
    if x.fractionField = 0 then some (if x.signField = 1 then ⊥ else ⊤) else none
  else
    some (((-1) ^ x.signField * fieldsValue x.exponentField x.fractionField : ℚ) : WithBotTop ℚ)

theorem cast_unitsPerOne : ((unitsPerOne : ℕ) : ℚ) = 2 ^ 52 * 2 ^ 1022 := by
  have hcast : ∀ m n : ℕ, m = 2 ^ n → (m : ℚ) = 2 ^ n := by
    rintro _ n rfl
    exact Nat.cast_pow 2 n
  refine (hcast unitsPerOne 1074 ?_).trans (pow_add 2 52 1022)
  rw [unitsPerOne]

/-- The fields stand for the units at their magnitude. -/
theorem fieldsValue_eq_units (m : ℕ) :
    fieldsValue (m / 2 ^ 52) (m % 2 ^ 52) = units m / (unitsPerOne : ℕ) := by
  have hpos : (2 : ℚ) ^ 1022 ≠ 0 := pow_ne_zero _ two_ne_zero
  rw [cast_unitsPerOne, fieldsValue, units]
  by_cases h : m < 2 ^ 52
  · have hexp : (2 : ℚ) ^ (-1022 : ℤ) = (2 ^ 1022)⁻¹ := zpow_neg 2 1022
    rw [if_pos (Nat.div_eq_of_lt h), if_pos h, Nat.mod_eq_of_lt h, hexp, ← div_eq_mul_inv,
      div_div]
  · -- the hidden bit and the fraction are whole numbers of `2 ^ (-52)`, here and in the units
    obtain ⟨k, hk⟩ : ∃ k, m / 2 ^ 52 = k + 1 := ⟨m / 2 ^ 52 - 1, by omega⟩
    have hexp : (2 : ℚ) ^ (((k + 1 : ℕ) : ℤ) - 1023) = 2 ^ k / 2 ^ 1022 := by
      rw [show ((k + 1 : ℕ) : ℤ) - 1023 = (k : ℤ) - (1022 : ℕ) by omega, zpow_sub₀ two_ne_zero,
        zpow_natCast, zpow_natCast]
    rw [if_neg (by omega), if_neg h, hk, hexp, Nat.add_sub_cancel, Nat.cast_mul, Nat.cast_add,
      Nat.cast_pow, Nat.cast_pow, Nat.cast_ofNat]
    generalize (2 : ℚ) ^ 1022 = c at hpos ⊢
    field_simp

/-- A full exponent field is that of a double which is not finite. -/
theorem exponentField_eq_iff : x.exponentField = 2047 ↔ x.isFinite = false := by
  have := x.magnitude_lt
  rw [exponentField_eq, isFinite, decide_eq_false_iff_not, infinityMagnitude]
  omega

/-- **The value of a finite double** is that of its fields. -/
theorem extended?_of_value? {q : ℚ} (h : x.value? = some q) :
    x.extended? = some (q : WithBotTop ℚ) := by
  obtain ⟨hfin, rfl⟩ := value?_eq_some_iff.1 h
  have hexp : ¬ x.exponentField = 2047 := by
    rw [exponentField_eq_iff, hfin]
    exact Bool.noConfusion
  have hvalue : (-1) ^ x.signField * fieldsValue x.exponentField x.fractionField =
      (x.signedUnits : ℚ) / (unitsPerOne : ℕ) := by
    rw [signField_eq, exponentField_eq, fractionField_eq, fieldsValue_eq_units, signedUnits]
    split
    · rw [pow_one, neg_one_mul, Int.cast_neg, Int.cast_natCast, neg_div]
    · rw [pow_zero, one_mul, Int.cast_natCast]
  rw [extended?, if_neg hexp, hvalue]

/-- An infinity is beyond all values on the side of its sign. -/
theorem extended?_of_isInfinite (h : x.isInfinite = true) :
    x.extended? = some (if x.negative then ⊥ else ⊤) := by
  have hm : x.magnitude = infinityMagnitude := beq_iff_eq.1 h
  have hexp : x.exponentField = 2047 := by rw [exponentField_eq, hm]; rfl
  have hfrac : x.fractionField = 0 := by rw [fractionField_eq, hm]; rfl
  rw [extended?, if_pos hexp, if_pos hfrac, signField_eq]
  split <;> rfl

/-- **Only a NaN has no value**, finite or infinite. -/
theorem extended?_eq_none_iff : x.extended? = none ↔ x.isNaN = true := by
  have := x.magnitude_lt
  rw [extended?, exponentField_eq, fractionField_eq, isNaN, decide_eq_true_eq, infinityMagnitude]
  split
  · split
    · simp only [reduceCtorEq, false_iff]
      omega
    · simp only [true_iff]
      omega
  · simp only [reduceCtorEq, false_iff]
    omega

end LogicTerms.Binary64
