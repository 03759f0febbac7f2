/-
**The double nearest to a decimal.**

A decimal is the fraction of its numerator and its denominator, and the double nearest to it is the
one nearest to that fraction; the shortcuts for decimals that are far too large or far too small
change nothing.  Since equal fractions are rounded alike, a decimal gives the same double whether it
is rounded from its digits or first turned into a rational number.  Only the sign of a zero is lost
on the second way, which equality by value does not see.

Main definitions:

* `Binary64.overflow` — the least power of two above all finite doubles.

Main results:

* `Binary64.units_infinityMagnitude` — infinity is where the next power of two would be;
* `Binary64.nearestMagnitude_eq_infinity`, `Binary64.nearestMagnitude_eq_zero` — the two ends;
* `Binary64.ofDecimal_eq_ofFraction` — **a decimal is rounded as a fraction**;
* `Binary64.equal_ofRat_ofDecimal` — **both ways to a double agree**.
-/

import LogicTerms.Binary64.Arithmetic
import LogicTerms.Binary64.Nearest
import LogicTerms.Proofs.Binary64.Rounding
import LogicTerms.Proofs.Decimal.Basic
import Mathlib.Algebra.Order.Field.Basic

set_option relaxedAutoImplicit false
set_option autoImplicit false

namespace LogicTerms.Binary64

variable {n d : ℕ} {x y : Binary64}

/-! ### The two ends -/

/-- The least power of two above all finite doubles. -/
def overflow : ℕ := 2 ^ 1024

theorem units_infinityMagnitude : units infinityMagnitude = overflow * unitsPerOne := by
  have hsegment : infinityMagnitude = 2046 * 2 ^ 52 + 2 ^ 52 := by decide
  have hpow : 2 ^ 52 * 2 ^ 2046 = overflow * unitsPerOne := by decide +kernel
  rw [hsegment, units_segment (.inr le_rfl) (by decide), hpow]

/-- From `overflow` on, a fraction rounds to infinity. -/
theorem nearestMagnitude_eq_infinity (hd : 0 < d) (h : overflow * d ≤ n) :
    nearestMagnitude (n * unitsPerOne) d = infinityMagnitude := by
  refine le_antisymm (nearestMagnitude_le _ d) ((le_nearestMagnitude_iff hd le_rfl).2 ?_)
  refine reaches_of_lt ?_
  calc lowerMidpoint infinityMagnitude * d < 2 * units infinityMagnitude * d :=
        Nat.mul_lt_mul_of_pos_right (lowerMidpoint_lt (by decide)) hd
    _ = 2 * (overflow * d * unitsPerOne) := by
        rw [units_infinityMagnitude, Nat.mul_assoc, Nat.mul_right_comm]
    _ ≤ 2 * (n * unitsPerOne) := Nat.mul_le_mul_left 2 (Nat.mul_le_mul_right unitsPerOne h)

/-- Up to half a unit, a fraction rounds to zero. -/
theorem nearestMagnitude_eq_zero (hd : 0 < d) (h : 2 * n ≤ d) : nearestMagnitude n d = 0 := by
  have hnot : ¬ 1 ≤ nearestMagnitude n d := by
    rw [le_nearestMagnitude_iff hd (by decide)]
    intro hreach
    have hlt : 1 * d < 2 * n := hreach
    omega
  omega

/-! ### Decimals -/

theorem eq_of_magnitude (hs : x.negative = y.negative) (hm : x.magnitude = y.magnitude) :
    x = y := by
  obtain ⟨s, m, h⟩ := x
  obtain ⟨t, k, h'⟩ := y
  cases hs
  cases hm
  rfl

/-- There is one infinity of each sign. -/
theorem eq_infinity_of_isInfinite (h : x.isInfinite = true) : x = infinity x.negative :=
  eq_of_magnitude rfl (beq_iff_eq.1 h)

@[simp] theorem negative_ofFraction (s : Bool) (n d : ℕ) : (ofFraction s n d).negative = s := rfl

@[simp] theorem magnitude_ofFraction (s : Bool) (n d : ℕ) :
    (ofFraction s n d).magnitude = nearestMagnitude n d := rfl

/-- **A decimal is rounded as a fraction.** -/
theorem ofDecimal_eq_ofFraction (s : Bool) (d : Decimal) :
    ofDecimal s d = ofFraction s (d.numerator * unitsPerOne) d.denominator := by
  have hpos := d.denominator_pos
  rw [ofDecimal]
  split
  · rename_i hzero
    refine eq_of_magnitude rfl (nearestMagnitude_eq_zero hpos ?_).symm
    rw [Decimal.numerator, hzero]
    omega
  · rename_i hne
    split
    · rename_i hlarge
      have hpow : overflow ≤ 10 ^ 309 := by decide +kernel
      have hle := Decimal.le_numerator_of_point (n := 309) hne hlarge
      refine eq_of_magnitude rfl (nearestMagnitude_eq_infinity hpos ?_).symm
      exact (Nat.mul_le_mul_right d.denominator hpow).trans hle
    · split
      · rename_i hsmall
        have hpow : 2 * unitsPerOne ≤ 10 ^ 324 := by decide +kernel
        have hlt := Decimal.numerator_lt_of_point (n := 324) hsmall
        refine eq_of_magnitude rfl (nearestMagnitude_eq_zero hpos ?_).symm
        calc 2 * (d.numerator * unitsPerOne) = 2 * unitsPerOne * d.numerator := by ring
          _ ≤ 10 ^ 324 * d.numerator := Nat.mul_le_mul_right d.numerator hpow
          _ ≤ d.denominator := hlt.le
      · rw [Decimal.numerator, Decimal.denominator]
        split
        · have hzero : (-d.exponent).toNat = 0 := by omega
          rw [hzero, Nat.pow_zero]
        · have hzero : d.exponent.toNat = 0 := by omega
          rw [hzero, Nat.pow_zero, Nat.mul_one]

/-- Decimals of one value are rounded alike. -/
theorem ofDecimal_congr {s : Bool} {d e : Decimal} (h : d.value = e.value) :
    ofDecimal s d = ofDecimal s e := by
  have hd : (d.denominator : ℚ) ≠ 0 := Nat.cast_ne_zero.2 d.denominator_pos.ne'
  have he : (e.denominator : ℚ) ≠ 0 := Nat.cast_ne_zero.2 e.denominator_pos.ne'
  have hcross : d.numerator * e.denominator = e.numerator * d.denominator := by
    rw [Decimal.value_eq_div, Decimal.value_eq_div, div_eq_div_iff hd he] at h
    exact_mod_cast h
  rw [ofDecimal_eq_ofFraction, ofDecimal_eq_ofFraction]
  refine eq_of_magnitude (by rw [negative_ofFraction, negative_ofFraction]) ?_
  rw [magnitude_ofFraction, magnitude_ofFraction]
  refine nearestMagnitude_congr d.denominator_pos e.denominator_pos ?_
  rw [Nat.mul_right_comm, hcross, Nat.mul_right_comm]

/-! ### Rational numbers -/

/-- Doubles of one magnitude are equal by value if they have one sign or are zero. -/
theorem equal_of_magnitude (hm : x.magnitude = y.magnitude)
    (hle : x.magnitude ≤ infinityMagnitude)
    (hs : x.magnitude ≠ 0 → x.negative = y.negative) : x.equal y = true := by
  have hx : x.isNaN = false := by
    rw [isNaN, decide_eq_false_iff_not]
    omega
  have hy : y.isNaN = false := by
    rw [isNaN, decide_eq_false_iff_not]
    omega
  have hrank : x.rank = y.rank := by
    rw [rank, rank, ← hm]
    by_cases hzero : x.magnitude = 0
    · rw [hzero]
      split <;> split <;> rfl
    · rw [hs hzero]
  rw [equal, hx, hy, hrank, beq_self_eq_true]
  rfl

/-- **Both ways to a double agree**: through the rational number that a decimal is, behind its sign,
and through its digits. -/
theorem equal_ofRat_ofDecimal (s : Bool) (d : Decimal) :
    (ofRat (if s then -d.value else d.value)).equal (ofDecimal s d) = true := by
  have hdpos : (0 : ℚ) < d.denominator := Nat.cast_pos.2 d.denominator_pos
  have hnonneg : 0 ≤ d.value := by
    rw [Decimal.value_eq_div]
    exact div_nonneg (Nat.cast_nonneg _) (Nat.cast_nonneg _)
  generalize hq : (if s then -d.value else d.value) = q
  have hqpos : (0 : ℚ) < q.den := Nat.cast_pos.2 q.den_pos
  have habs : |q| = d.value := by
    rw [← hq]
    split
    · rw [abs_neg, abs_of_nonneg hnonneg]
    · exact abs_of_nonneg hnonneg
  have hcross : q.num.natAbs * d.denominator = d.numerator * q.den := by
    have hdiv : (q.num.natAbs : ℚ) / q.den = d.numerator / d.denominator := by
      rw [← Decimal.value_eq_div, ← habs, Nat.cast_natAbs, Int.cast_abs]
      conv_rhs => rw [← Rat.num_div_den q, abs_div, Nat.abs_cast]
    have := (div_eq_div_iff hqpos.ne' hdpos.ne').1 hdiv
    exact_mod_cast this
  have hmagnitude : nearestMagnitude (q.num.natAbs * unitsPerOne) q.den =
      nearestMagnitude (d.numerator * unitsPerOne) d.denominator := by
    refine nearestMagnitude_congr q.den_pos d.denominator_pos ?_
    rw [Nat.mul_right_comm, hcross, Nat.mul_right_comm]
  rw [ofDecimal_eq_ofFraction, ofRat]
  refine equal_of_magnitude hmagnitude (nearestMagnitude_le _ _) fun hne => ?_
  -- a decimal that does not round to zero is not zero
  have hvalue : d.value ≠ 0 := by
    intro hzero
    have hq0 : q = 0 := abs_eq_zero.1 (habs.trans hzero)
    subst hq0
    exact hne (nearestMagnitude_eq_zero Nat.one_pos (by simp))
  have hpos : 0 < d.value := lt_of_le_of_ne hnonneg hvalue.symm
  show decide (q.num < 0) = s
  rw [← hq]
  cases s with
  | true => simpa using hpos
  | false => simpa using hnonneg

end LogicTerms.Binary64
