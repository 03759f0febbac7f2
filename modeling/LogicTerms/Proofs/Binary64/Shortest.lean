/-
**The shortest decimal reads back.**

The search for the decimal of a double ends at a grid point within the interval of its magnitude, or
at the double itself, which is on the last grid.  What lies in the interval of a magnitude rounds to
it, so the decimal that is found is read back as the double that it was found for.

Main definitions:

* `Binary64.Fits` — a decimal lies in the interval of a magnitude.

Main results:

* `Binary64.roundsTo_units` — a double lies in its own interval;
* `Binary64.fits_shortest` — **the shortest decimal lies in the interval of its magnitude**;
* `Binary64.ofDecimal_shortest` — **the shortest decimal of a finite double reads back as it**;
* `Binary64.size_shortest` — the shortest decimal of a finite double is of a moderate size.
-/

import LogicTerms.Proofs.Binary64.Decimal

set_option relaxedAutoImplicit false
set_option autoImplicit false

namespace LogicTerms.Binary64

variable {m n d : ℕ}

/-- A double lies in its own interval. -/
theorem roundsTo_units (m : ℕ) (hd : 0 < d) : RoundsTo m (2 * units m * d) d := by
  have hupper : 2 * units m < upperMidpoint m := by
    have hlt := units_lt_units_succ m
    rw [upperMidpoint]
    omega
  rw [roundsTo_iff_reaches]
  constructor
  · rw [reaches_mul_iff hd]
    by_cases hm : m = 0
    · subst hm
      exact reaches_zero _
    · exact reaches_of_lt (lowerMidpoint_lt hm)
  · rw [reaches_mul_iff hd, lowerMidpoint_succ]
    intro h
    exact absurd h.le (not_le.2 hupper)

/-- A point of a grid is a decimal. -/
theorem gridStep_eq (c : ℕ) (k : ℤ) :
    c * (gridStep k).1 = 2 * ((⟨c, k⟩ : Decimal).numerator * unitsPerOne) ∧
      (gridStep k).2 = (⟨c, k⟩ : Decimal).denominator := by
  rw [gridStep, Decimal.numerator, Decimal.denominator]
  split
  · have hzero : (-k).toNat = 0 := by omega
    refine ⟨?_, by rw [hzero, Nat.pow_zero]⟩
    ring
  · have hzero : k.toNat = 0 := by omega
    refine ⟨?_, rfl⟩
    rw [hzero, Nat.pow_zero]
    ring

/-- The fraction of half units that a decimal is lies in the interval of a magnitude. -/
def Fits (m : ℕ) (d : Decimal) : Prop := RoundsTo m (2 * (d.numerator * unitsPerOne)) d.denominator

theorem fits_of_gridPoint? {k : ℤ} {c : ℕ} (h : gridPoint? m k = some c) : Fits m ⟨c, k⟩ := by
  have hin := roundsTo_of_gridPoint? h
  obtain ⟨hnum, hden⟩ := gridStep_eq c k
  rwa [hnum, hden] at hin

/-- A grid whose step divides a unit holds every double. -/
theorem fits_of_step {e : ℕ} (he : 5 ^ e * unitsPerOne = 10 ^ e) :
    Fits m ⟨units m * 5 ^ e, -e⟩ := by
  have hexp : (-(e : ℤ)).toNat = 0 := by omega
  have hnum : (⟨units m * 5 ^ e, -e⟩ : Decimal).numerator = units m * 5 ^ e := by
    rw [Decimal.numerator, hexp, Nat.pow_zero, Nat.mul_one]
  have hden : (⟨units m * 5 ^ e, -e⟩ : Decimal).denominator = 10 ^ e := by
    have hneg : (-(-(e : ℤ))).toNat = e := by omega
    rw [Decimal.denominator, hneg]
  rw [Fits, hnum, hden, Nat.mul_assoc, he, ← Nat.mul_assoc]
  exact roundsTo_units m (Nat.pow_pos (by decide))

/-- Wherever the search starts, it ends in the interval. -/
theorem fits_shortestFrom (m steps : ℕ) : Fits m (shortestFrom m steps) := by
  induction steps with
  | zero => exact fits_of_step (e := 1074) (by decide +kernel)
  | succ steps ih =>
      rw [shortestFrom]
      cases hc : gridPoint? m (steps - 1073) with
      | some c => exact fits_of_gridPoint? hc
      | none => exact ih

/-- **The shortest decimal lies in the interval of its magnitude.** -/
theorem fits_shortest (m : ℕ) : Fits m (shortest m) := by
  rw [shortest]
  split
  · rename_i hzero
    have hnum : (⟨0, 0⟩ : Decimal).numerator = 0 := rfl
    rw [hzero, Fits, hnum, Nat.zero_mul]
    exact roundsTo_units 0 (Decimal.denominator_pos _)
  · exact fits_shortestFrom m _

/-- **The shortest decimal of a finite double reads back as it.** -/
theorem ofDecimal_shortest {x : Binary64} (h : x.isFinite = true) :
    ofDecimal x.negative (shortest x.magnitude) = x := by
  have hlt : x.magnitude < infinityMagnitude := of_decide_eq_true h
  rw [ofDecimal_eq_ofFraction]
  refine eq_of_magnitude (negative_ofFraction _ _ _) ?_
  rw [magnitude_ofFraction]
  exact (nearestMagnitude_eq_iff_roundsTo (Decimal.denominator_pos _) hlt).2 (fits_shortest _)

/-! ### The size of the shortest decimal -/

/-- No grid is finer than the last one. -/
theorem le_exponent_shortestFrom (m steps : ℕ) : -1074 ≤ (shortestFrom m steps).exponent := by
  induction steps with
  | zero => exact le_rfl
  | succ steps ih =>
      rw [shortestFrom]
      cases gridPoint? m (steps - 1073) with
      | some c =>
          show (-1074 : ℤ) ≤ steps - 1073
          omega
      | none => exact ih

theorem le_exponent_shortest (m : ℕ) : -1074 ≤ (shortest m).exponent := by
  rw [shortest]
  split
  · decide
  · exact le_exponent_shortestFrom m _

/-- The shortest decimal of a finite double is below the decimals that are infinite. -/
theorem point_shortest_le {x : Binary64} (h : x.isFinite = true) :
    (shortest x.magnitude).point ≤ 309 := by
  have hlt : x.magnitude < infinityMagnitude := of_decide_eq_true h
  have hread := ofDecimal_shortest h
  rw [ofDecimal] at hread
  split at hread
  · -- only zero is read as zero, and its decimal is that of no digits but one
    have hzero : x.magnitude = 0 := (congrArg magnitude hread).symm
    rw [hzero]
    decide
  · split at hread
    · have hinfinite : x.magnitude = infinityMagnitude := (congrArg magnitude hread).symm
      exact absurd hinfinite hlt.ne
    · omega

/-- **The shortest decimal of a finite double is of a moderate size.** -/
theorem size_shortest {x : Binary64} (h : x.isFinite = true) :
    |(shortest x.magnitude).exponent| ≤ 1074 ∧ |(shortest x.magnitude).point - 1| ≤ 1074 := by
  have hlow := le_exponent_shortest x.magnitude
  have hhigh := point_shortest_le h
  have hlength := (shortest x.magnitude).length_digits_pos
  have hpoint : (shortest x.magnitude).point =
      (shortest x.magnitude).digits.length + (shortest x.magnitude).exponent := rfl
  rw [abs_le, abs_le]
  omega

end LogicTerms.Binary64
