/-
**Doubles in the order of their values.**

The rank of a double is a signed magnitude, and comparing doubles is comparing ranks.  For finite
doubles that is comparing values, because the number of units at a magnitude grows with the
magnitude.  The others are beyond all values, on the side of their sign: the infinities on a first
level and the NaNs on a second, where they are told apart by the total order.  So every double has
a *place*, a tier and a rational number within it, and both comparisons of doubles are comparisons
of places wherever they are used.

Main definitions:

* `Binary64.level`, `Binary64.tier` — how far beyond the finite doubles a double is, and on which
  side;
* `Binary64.place` — the tier of a double, and its place within the tier;
* `Binary64.outward` — the side that a double is on.

Main results:

* `Binary64.units_strictMono` — units grow with the magnitude;
* `Binary64.compare?_eq_compare_value` — finite doubles compare as their values;
* `Binary64.compareFallback_eq` — **doubles compare as their places**.
-/

import LogicTerms.Binary64.Arithmetic
import Mathlib.Algebra.Order.Field.Rat
import Mathlib.Algebra.Order.Ring.Cast
import Mathlib.Data.Prod.Lex
import Mathlib.Order.Compare
import Mathlib.Order.Monotone.Basic
import Mathlib.Tactic.Ring
import Mathlib.Algebra.Order.Ring.Int

set_option relaxedAutoImplicit false
set_option autoImplicit false

namespace LogicTerms.Binary64

variable {x y : Binary64}

/-! ### Comparisons -/

/-- Two comparisons agree if they agree on what is less. -/
theorem compare_eq_compare {α β : Type} [LinearOrder α] [LinearOrder β] {a b : α} {c d : β}
    (h : a < b ↔ c < d) (h' : b < a ↔ d < c) : compare a b = compare c d := by
  obtain hlt | rfl | hgt := lt_trichotomy a b
  · rw [compare_lt_iff_lt.2 hlt, compare_lt_iff_lt.2 (h.1 hlt)]
  · have hcd : c = d := le_antisymm (not_lt.1 fun hd => lt_irrefl a (h'.2 hd))
      (not_lt.1 fun hc => lt_irrefl a (h.2 hc))
    rw [compare_eq_iff_eq.2 rfl, compare_eq_iff_eq.2 hcd]
  · rw [compare_gt_iff_gt.2 hgt, compare_gt_iff_gt.2 (h'.1 hgt)]

/-! ### Units -/

theorem unitsPerOne_pos : 0 < unitsPerOne := by
  unfold unitsPerOne
  exact Nat.two_pow_pos 1074

theorem units_lt_units_succ (m : ℕ) : units m < units (m + 1) := by
  by_cases h : m + 1 < 2 ^ 52
  · rw [units, units, if_pos h, if_pos (by omega)]
    exact Nat.lt_succ_self m
  by_cases h' : m < 2 ^ 52
  · have hm : m = 2 ^ 52 - 1 := by omega
    subst hm
    decide
  rw [units, units, if_neg h, if_neg h']
  by_cases hr : (m + 1) % 2 ^ 52 = 0
  · -- the exponent field goes up by one, and the fraction field from full to empty
    obtain ⟨e, he⟩ : ∃ e, m / 2 ^ 52 = e + 1 := ⟨m / 2 ^ 52 - 1, by omega⟩
    have hd : (m + 1) / 2 ^ 52 = e + 2 := by omega
    have hm : m % 2 ^ 52 = 2 ^ 52 - 1 := by omega
    have hp : 0 < 2 ^ e := Nat.two_pow_pos e
    rw [hr, hd, he, hm, Nat.add_sub_cancel, show e + 2 - 1 = e + 1 from rfl, Nat.pow_succ]
    omega
  · have hd : (m + 1) / 2 ^ 52 = m / 2 ^ 52 := by omega
    have hm : (m + 1) % 2 ^ 52 = m % 2 ^ 52 + 1 := by omega
    rw [hd, hm]
    exact Nat.mul_lt_mul_of_pos_right (by omega) (Nat.two_pow_pos _)

/-- **Units grow with the magnitude.** -/
theorem units_strictMono : StrictMono units := strictMono_nat_of_lt_succ units_lt_units_succ

theorem signedUnits_lt_iff : x.signedUnits < y.signedUnits ↔ x.rank < y.rank := by
  have hlt : units x.magnitude < units y.magnitude ↔ x.magnitude < y.magnitude :=
    units_strictMono.lt_iff_lt
  have hgt : units y.magnitude < units x.magnitude ↔ y.magnitude < x.magnitude :=
    units_strictMono.lt_iff_lt
  have hx : units 0 < units x.magnitude ↔ 0 < x.magnitude := units_strictMono.lt_iff_lt
  have hy : units 0 < units y.magnitude ↔ 0 < y.magnitude := units_strictMono.lt_iff_lt
  have hzero : units 0 = 0 := rfl
  -- doubles on different sides of zero need that units are zero at zero only
  rw [signedUnits, signedUnits, rank, rank]
  split <;> split <;> omega

theorem value?_eq_some_iff {p : ℚ} :
    x.value? = some p ↔ x.isFinite = true ∧ (x.signedUnits : ℚ) / (unitsPerOne : ℕ) = p := by
  rw [value?, Rat.mkRat_eq_div]
  split
  · rename_i h
    rw [Option.some_inj, and_iff_right h]
  · rename_i h
    constructor
    · intro h'
      exact nomatch h'
    · intro h'
      exact absurd h'.1 h

theorem value?_eq_none_iff : x.value? = none ↔ x.isFinite = false := by
  rw [value?]
  split <;> simp_all

theorem rank_lt_iff_value_lt {p q : ℚ} (hx : x.value? = some p) (hy : y.value? = some q) :
    x.rank < y.rank ↔ p < q := by
  have hpos : (0 : ℚ) < (unitsPerOne : ℕ) := Nat.cast_pos.2 unitsPerOne_pos
  rw [← (value?_eq_some_iff.1 hx).2, ← (value?_eq_some_iff.1 hy).2, ← signedUnits_lt_iff,
    div_lt_div_iff_of_pos_right hpos, Int.cast_lt]

/-- **Finite doubles compare as their values.** -/
theorem compare_rank_eq_compare_value {p q : ℚ} (hx : x.value? = some p)
    (hy : y.value? = some q) : compare x.rank y.rank = compare p q :=
  compare_eq_compare (rank_lt_iff_value_lt hx hy) (rank_lt_iff_value_lt hy hx)

/-! ### Beyond the values -/

/-- How far beyond the finite doubles a double is. -/
def level (x : Binary64) : ℕ := if x.isFinite then 0 else if x.isInfinite then 1 else 2

/-- The side that a double is on. -/
def outward (x : Binary64) : Ordering := if x.negative then .lt else .gt

/-- How far beyond the finite doubles a double is, and on which side. -/
def tier (x : Binary64) : ℤ := if x.negative then -(x.level : ℤ) else x.level

/-- The tier of a double, and its place within the tier. -/
def place (x : Binary64) : ℤ ×ₗ ℚ := toLex (x.tier, x.value?.getD x.totalRank)

theorem level_eq_zero_iff : x.level = 0 ↔ x.isFinite = true := by
  rw [level, isFinite, isInfinite]
  grind

theorem level_eq_one_iff : x.level = 1 ↔ x.magnitude = infinityMagnitude := by
  rw [level, isFinite, isInfinite]
  grind

theorem level_eq_two_iff : x.level = 2 ↔ x.isNaN = true := by
  rw [level, isFinite, isInfinite, isNaN]
  grind

theorem magnitude_lt_of_level_lt (h : y.level < x.level) : y.magnitude < x.magnitude := by
  rw [level, level, isFinite, isFinite, isInfinite, isInfinite] at h
  grind

theorem compare_rank_of_magnitude_lt (h : y.magnitude < x.magnitude) :
    compare x.rank y.rank = x.outward := by
  rw [outward]
  split
  · rename_i hs
    rw [compare_lt_iff_lt, rank, rank, if_pos hs]
    split <;> omega
  · rename_i hs
    rw [compare_gt_iff_gt, rank, rank, if_neg hs]
    split <;> omega

theorem totalCompare_of_magnitude_lt (h : y.magnitude < x.magnitude) :
    x.totalCompare y = x.outward := by
  rw [outward, totalCompare]
  split
  · rename_i hs
    rw [compare_lt_iff_lt, totalRank, totalRank, if_pos hs]
    split <;> omega
  · rename_i hs
    rw [compare_gt_iff_gt, totalRank, totalRank, if_neg hs]
    split <;> omega

theorem natAbs_tier (x : Binary64) : x.tier.natAbs = x.level := by
  rw [tier]
  split <;> omega

/-! ### Places -/

theorem place_of_value? {p : ℚ} (h : x.value? = some p) : x.place = toLex (0, p) := by
  have hlevel : x.level = 0 := level_eq_zero_iff.2 (value?_eq_some_iff.1 h).1
  have htier : x.tier = 0 := by
    have := x.natAbs_tier
    omega
  rw [place, htier, h, Option.getD_some]

/-- A double compares with everything on a lower level as its side says. -/
theorem compare_place_of_level_lt {t : ℤ} (q : ℚ) (h : t.natAbs < x.level) :
    compare x.place (toLex (t, q)) = x.outward := by
  have htier : compare x.tier t = x.outward := by
    rw [outward]
    split
    · rename_i hs
      rw [compare_lt_iff_lt, tier, if_pos hs]
      omega
    · rename_i hs
      rw [compare_gt_iff_gt, tier, if_neg hs]
      omega
  have hlex : compare x.place (toLex (t, q)) =
      (compare x.tier t).then (compare (x.value?.getD x.totalRank) q) := rfl
  rw [hlex, htier, outward]
  split <;> rfl

/-- Within a level beyond the values, the total order is that of the places. -/
theorem place_lt_place_iff (h : x.level = y.level) (hpos : 0 < x.level) :
    x.place < y.place ↔ x.totalRank < y.totalRank := by
  have hvalue : ∀ z : Binary64, 0 < z.level → z.value? = none := by
    intro z hz
    rw [value?_eq_none_iff, ← Bool.not_eq_true, ← level_eq_zero_iff]
    omega
  rw [place, place, hvalue x hpos, hvalue y (h ▸ hpos), Option.getD_none, Option.getD_none,
    Prod.Lex.toLex_lt_toLex, Int.cast_lt, tier, tier, totalRank, totalRank]
  split <;> split <;> omega

/-- The order of two doubles: by value, and total if one of them is a NaN. -/
def compareFallback (x y : Binary64) : Ordering := (x.compare? y).getD (x.totalCompare y)

theorem compareFallback_swap (x y : Binary64) :
    x.compareFallback y = (y.compareFallback x).swap := by
  rw [compareFallback, compareFallback, compare?, compare?, Bool.or_comm]
  split
  · exact Std.OrientedOrd.eq_swap
  · exact Std.OrientedOrd.eq_swap

theorem compareFallback_of_level_lt (h : y.level < x.level) :
    x.compareFallback y = x.outward := by
  have hm := magnitude_lt_of_level_lt h
  rw [compareFallback, compare?]
  split
  · exact totalCompare_of_magnitude_lt hm
  · exact compare_rank_of_magnitude_lt hm

theorem compareFallback_of_level_eq_two (h : x.level = 2) (h' : y.level = 2) :
    x.compareFallback y = x.totalCompare y := by
  rw [compareFallback, compare?, level_eq_two_iff.1 h, level_eq_two_iff.1 h']
  rfl

theorem compareFallback_of_level_lt_two (h : x.level < 2) (h' : y.level < 2) :
    x.compareFallback y = compare x.rank y.rank := by
  have hnot : ∀ z : Binary64, z.level < 2 → z.isNaN = false := by
    intro z hz
    rw [← Bool.not_eq_true, ← level_eq_two_iff]
    omega
  rw [compareFallback, compare?, hnot x h, hnot y h']
  rfl

/-- Doubles on one level compare as their places. -/
theorem compareFallback_of_level_eq (h : x.level = y.level) :
    x.compareFallback y = compare x.place y.place := by
  obtain hx | hx | hx : x.level = 0 ∨ x.level = 1 ∨ x.level = 2 := by
    rw [level]
    grind
  · -- both finite: by value
    have hp := value?_eq_some_iff.2 ⟨level_eq_zero_iff.1 hx, rfl⟩
    have hq := value?_eq_some_iff.2 ⟨level_eq_zero_iff.1 (h ▸ hx), rfl⟩
    rw [compareFallback_of_level_lt_two (by omega) (by omega), place_of_value? hp,
      place_of_value? hq]
    exact compare_rank_eq_compare_value hp hq
  · -- both infinite: by sign
    have hrank : ∀ {x y : Binary64}, x.level = 1 → y.level = 1 →
        (x.rank < y.rank ↔ x.place < y.place) := by
      intro x y hx hy
      rw [place_lt_place_iff (by omega) (by omega), rank, rank, totalRank, totalRank,
        level_eq_one_iff.1 hx, level_eq_one_iff.1 hy, infinityMagnitude]
      split <;> split <;> omega
    rw [compareFallback_of_level_lt_two (by omega) (by omega)]
    exact compare_eq_compare (hrank hx (h ▸ hx)) (hrank (h ▸ hx) hx)
  · -- two NaNs: by all of their bits
    rw [compareFallback_of_level_eq_two hx (h ▸ hx), totalCompare]
    exact compare_eq_compare (place_lt_place_iff h (by omega)).symm
      (place_lt_place_iff h.symm (by omega)).symm

/-- **Doubles compare as their places.** -/
theorem compareFallback_eq (x y : Binary64) : x.compareFallback y = compare x.place y.place := by
  have hbeyond : ∀ {x y : Binary64}, y.level < x.level →
      x.compareFallback y = compare x.place y.place := by
    intro x y h
    rw [compareFallback_of_level_lt h]
    exact (compare_place_of_level_lt _ (y.natAbs_tier ▸ h)).symm
  obtain hlt | heq | hgt := lt_trichotomy x.level y.level
  · rw [compareFallback_swap, hbeyond hlt]
    exact Std.OrientedOrd.eq_swap.symm
  · exact compareFallback_of_level_eq heq
  · exact hbeyond hgt

end LogicTerms.Binary64
