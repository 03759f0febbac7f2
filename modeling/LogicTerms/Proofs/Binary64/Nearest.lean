/-
**The nearest double, by the rule of the format.**

The rule for rounding a number speaks of values only.  A number whose absolute value is less than a
threshold becomes a finite double; no finite double is nearer to it, and if another one is equally
near, the last digit of the fraction is even.  The threshold is halfway between the greatest finite
double and the power of two that would come next, and from there on numbers become infinite.  The
double has the sign of the number, except that the number zero has none.

This rule leaves nothing open but the sign of a zero, and it is what the midpoints of magnitudes
come to: the double nearest to a fraction of units is the nearest double by the rule.

Main definitions:

* `Binary64.absValue`, `Binary64.finiteValue` — the absolute value at a magnitude, and the value of a
  finite double;
* `Binary64.overflowThreshold` — the least number that is rounded to infinity;
* `Binary64.IsNearest` — **the rule**.

Main results:

* `Binary64.finiteValue_eq` — the value of a double is that of its magnitude behind its sign;
* `Binary64.abs_sub_absValue_le` — no magnitude is nearer than the one whose interval a number is in;
* `Binary64.isNearest_ofFraction` — **a fraction is rounded to the nearest double**;
* `Binary64.IsNearest.unique` — and to no other of its sign.
-/

import LogicTerms.Proofs.Binary64.Decimal
import LogicTerms.Proofs.Binary64.Fields
import Mathlib.Tactic.Linarith

set_option relaxedAutoImplicit false
set_option autoImplicit false

namespace LogicTerms.Binary64

variable {m n d : ℕ} {q u v : ℚ} {w x y z : Binary64}

/-! ### Absolute values -/

/-- The absolute value at a magnitude. -/
def absValue (m : ℕ) : ℚ := units m / (unitsPerOne : ℕ)

theorem cast_unitsPerOne_pos : (0 : ℚ) < (unitsPerOne : ℕ) := Nat.cast_pos.2 unitsPerOne_pos

theorem absValue_strictMono : StrictMono absValue := fun _ _ h =>
  div_lt_div_of_pos_right (Nat.cast_lt.2 (units_strictMono h)) cast_unitsPerOne_pos

theorem absValue_zero : absValue 0 = 0 := by
  rw [absValue, show units 0 = 0 from rfl, Nat.cast_zero, zero_div]

theorem absValue_nonneg (m : ℕ) : 0 ≤ absValue m :=
  absValue_zero ▸ absValue_strictMono.monotone (Nat.zero_le m)

/-- The value of a finite double; it means nothing for the others. -/
def finiteValue (x : Binary64) : ℚ := x.signedUnits / (unitsPerOne : ℕ)

/-- The value of a double is that of its magnitude behind its sign. -/
theorem finiteValue_eq (x : Binary64) :
    x.finiteValue = if x.negative then -absValue x.magnitude else absValue x.magnitude := by
  rw [finiteValue, signedUnits, absValue]
  cases x.negative with
  | true => rw [if_pos rfl, if_pos rfl, Int.cast_neg, Int.cast_natCast, neg_div]
  | false => rw [if_neg Bool.false_ne_true, if_neg Bool.false_ne_true, Int.cast_natCast]

theorem abs_finiteValue (x : Binary64) : |x.finiteValue| = absValue x.magnitude := by
  rw [finiteValue_eq]
  split
  · rw [abs_neg, abs_of_nonneg (absValue_nonneg _)]
  · rw [abs_of_nonneg (absValue_nonneg _)]

theorem value?_eq_iff : x.value? = some v ↔ x.isFinite = true ∧ x.finiteValue = v :=
  value?_eq_some_iff

theorem abs_of_value? (h : x.value? = some v) : |v| = absValue x.magnitude := by
  rw [← (value?_eq_iff.1 h).2, abs_finiteValue]

theorem value?_zero (s : Bool) : (zero s).value? = some 0 := by
  refine value?_eq_iff.2 ⟨rfl, ?_⟩
  rw [finiteValue_eq, show (zero s).magnitude = 0 from rfl, absValue_zero, neg_zero, ite_self]

/-! ### Distances -/

/-- Of two numbers the greater is at least as near if the midpoint is not above. -/
theorem abs_sub_le_right_iff {r a b : ℚ} (h : a < b) : |r - b| ≤ |r - a| ↔ a + b ≤ 2 * r := by
  have hdiff : (r - a) ^ 2 - (r - b) ^ 2 = (b - a) * (2 * r - (a + b)) := by ring
  rw [← sq_le_sq, ← sub_nonneg, hdiff, mul_nonneg_iff_of_pos_left (sub_pos.2 h), sub_nonneg]

/-- Of two numbers the less is at least as near if the midpoint is not below. -/
theorem abs_sub_le_left_iff {r a b : ℚ} (h : a < b) : |r - a| ≤ |r - b| ↔ 2 * r ≤ a + b := by
  have hdiff : (r - b) ^ 2 - (r - a) ^ 2 = (b - a) * ((a + b) - 2 * r) := by ring
  rw [← sq_le_sq, ← sub_nonneg, hdiff, mul_nonneg_iff_of_pos_left (sub_pos.2 h), sub_nonneg]

/-- A fraction of units as a number. -/
def ofUnits (n d : ℕ) : ℚ := n / (d * (unitsPerOne : ℕ))

/-- Twice a fraction of units, beside a number of half units. -/
theorem div_le_two_mul_ofUnits_iff {b : ℕ} (hd : 0 < d) :
    (b : ℚ) / (unitsPerOne : ℕ) ≤ 2 * ofUnits n d ↔ b * d ≤ 2 * n := by
  have hdpos : (0 : ℚ) < d := Nat.cast_pos.2 hd
  have hU := cast_unitsPerOne_pos
  rw [ofUnits]
  generalize ((unitsPerOne : ℕ) : ℚ) = U at hU ⊢
  rw [← Nat.cast_le (α := ℚ), Nat.cast_mul, Nat.cast_mul, Nat.cast_ofNat, mul_div_assoc',
    div_le_div_iff₀ hU (mul_pos hdpos hU), ← mul_assoc, mul_le_mul_iff_left₀ hU]

theorem two_mul_ofUnits_le_div_iff {b : ℕ} (hd : 0 < d) :
    2 * ofUnits n d ≤ (b : ℚ) / (unitsPerOne : ℕ) ↔ 2 * n ≤ b * d := by
  have hdpos : (0 : ℚ) < d := Nat.cast_pos.2 hd
  have hU := cast_unitsPerOne_pos
  rw [ofUnits]
  generalize ((unitsPerOne : ℕ) : ℚ) = U at hU ⊢
  rw [← Nat.cast_le (α := ℚ), Nat.cast_mul, Nat.cast_mul, Nat.cast_ofNat, mul_div_assoc',
    div_le_div_iff₀ (mul_pos hdpos hU) hU, ← mul_assoc, mul_le_mul_iff_left₀ hU]

theorem lowerMidpoint_div (m : ℕ) :
    (lowerMidpoint m : ℚ) / (unitsPerOne : ℕ) = absValue (m - 1) + absValue m := by
  rw [lowerMidpoint, Nat.cast_add, add_div, absValue, absValue]

theorem upperMidpoint_div (m : ℕ) :
    (upperMidpoint m : ℚ) / (unitsPerOne : ℕ) = absValue m + absValue (m + 1) := by
  rw [upperMidpoint, Nat.cast_add, add_div, absValue, absValue]

/-- **The interval of a magnitude**, in values. -/
theorem roundsTo_iff_between (hd : 0 < d) :
    RoundsTo m (2 * n) d ↔
      if m % 2 = 0 then
        absValue (m - 1) + absValue m ≤ 2 * ofUnits n d ∧
          2 * ofUnits n d ≤ absValue m + absValue (m + 1)
      else
        absValue (m - 1) + absValue m < 2 * ofUnits n d ∧
          2 * ofUnits n d < absValue m + absValue (m + 1) := by
  simp only [RoundsTo, ← lowerMidpoint_div, ← upperMidpoint_div, ← not_le,
    div_le_two_mul_ofUnits_iff hd, two_mul_ofUnits_le_div_iff hd]

/-- A number in the interval of a magnitude is no nearer to another one, and farther from it if the
magnitude is odd. -/
theorem abs_sub_absValue_le {k : ℕ} (hd : 0 < d) (h : RoundsTo m (2 * n) d) (hk : k ≠ m) :
    |ofUnits n d - absValue m| ≤ |ofUnits n d - absValue k| ∧
      (m % 2 ≠ 0 → |ofUnits n d - absValue m| < |ofUnits n d - absValue k|) := by
  rw [roundsTo_iff_between hd] at h
  rcases lt_or_gt_of_ne hk with hlt | hgt
  · have hprev : absValue k ≤ absValue (m - 1) := absValue_strictMono.monotone (by omega)
    have hkm : absValue k < absValue m := absValue_strictMono hlt
    rw [abs_sub_le_right_iff hkm, lt_iff_not_ge, abs_sub_le_left_iff hkm]
    split at h
    · exact ⟨by linarith, fun hodd => absurd ‹_› hodd⟩
    · exact ⟨by linarith, fun _ => by linarith⟩
  · have hnext : absValue (m + 1) ≤ absValue k := absValue_strictMono.monotone hgt
    have hmk : absValue m < absValue k := absValue_strictMono hgt
    rw [abs_sub_le_left_iff hmk, lt_iff_not_ge, abs_sub_le_right_iff hmk]
    split at h
    · exact ⟨by linarith, fun hodd => absurd ‹_› hodd⟩
    · exact ⟨by linarith, fun _ => by linarith⟩

/-! ### The rule -/

/-- The least number that is rounded to infinity. -/
def overflowThreshold : ℚ := (2 - 1 / 2 ^ 53) * 2 ^ 1023

/-- **The nearest double**, of two that are equally near the one with an even last digit. -/
structure IsNearest (q : ℚ) (z : Binary64) : Prop where
  /-- It is on the side of the number. -/
  negative_iff : q ≠ 0 → (z.negative = true ↔ q < 0)
  /-- It is infinite from the threshold on. -/
  isInfinite_iff : z.isInfinite = true ↔ overflowThreshold ≤ |q|
  /-- It is finite below the threshold. -/
  exists_value : |q| < overflowThreshold → ∃ v, z.value? = some v
  /-- No finite double is nearer. -/
  nearest : ∀ {w : Binary64} {u v : ℚ}, z.value? = some v → w.value? = some u → |q - v| ≤ |q - u|
  /-- If another one is equally near, the last digit is even. -/
  even : ∀ {w : Binary64} {u v : ℚ}, z.value? = some v → w.value? = some u →
    |q - v| = |q - u| → u ≠ v → z.fractionField % 2 = 0

theorem fractionField_mod_two (x : Binary64) : x.fractionField % 2 = x.magnitude % 2 := by
  rw [fractionField_eq]
  omega

/-- The absolute value from one on, by its exponent and its fraction. -/
theorem absValue_of_exponent {e : ℕ} (he : m / 2 ^ 52 = 1023 + e) :
    absValue m = (1 + (m % 2 ^ 52 : ℕ) / 2 ^ 52) * 2 ^ e := by
  have hexp : ((1023 + e : ℕ) : ℤ) - 1023 = e := by omega
  rw [absValue, ← fieldsValue_eq_units, he, fieldsValue, if_neg (by omega), hexp, zpow_natCast]

/-- The threshold is the midpoint below infinity. -/
theorem lowerMidpoint_infinityMagnitude :
    (lowerMidpoint infinityMagnitude : ℚ) / (unitsPerOne : ℕ) = 2 * overflowThreshold := by
  have hlast : (infinityMagnitude - 1) % 2 ^ 52 = 2 ^ 52 - 1 := by decide
  have hnext : infinityMagnitude % 2 ^ 52 = 0 := by decide
  rw [lowerMidpoint_div, absValue_of_exponent (e := 1023) (by decide), hlast,
    absValue_of_exponent (e := 1023 + 1) (by decide), hnext, overflowThreshold,
    pow_succ (2 : ℚ) 1023]
  generalize (2 : ℚ) ^ 1023 = a
  norm_num
  ring

theorem infinityMagnitude_le_iff (hd : 0 < d) :
    infinityMagnitude ≤ nearestMagnitude n d ↔ overflowThreshold ≤ ofUnits n d := by
  have heven : infinityMagnitude % 2 = 0 := rfl
  rw [le_nearestMagnitude_iff hd le_rfl, Reaches, if_pos heven, ← div_le_two_mul_ofUnits_iff hd,
    lowerMidpoint_infinityMagnitude, mul_le_mul_iff_right₀ two_pos]

/-- Behind the same sign, numbers are as far apart as without it. -/
theorem abs_sub_of_sign (s : Bool) (r a : ℚ) :
    |(if s then -r else r) - (if s then -a else a)| = |r - a| := by
  cases s with
  | true => rw [if_pos rfl, if_pos rfl, neg_sub_neg, abs_sub_comm]
  | false => rw [if_neg Bool.false_ne_true, if_neg Bool.false_ne_true]

/-- A number is its absolute value behind its sign. -/
theorem eq_ite_abs {s : Bool} (hs : q ≠ 0 → (s = true ↔ q < 0)) : q = if s then -|q| else |q| := by
  by_cases hzero : q = 0
  · rw [hzero, abs_zero, neg_zero, ite_self]
  · cases s with
    | true =>
        have hneg : q < 0 := (hs hzero).1 rfl
        rw [if_pos rfl, eq_neg_iff_add_eq_zero, abs_of_neg hneg, add_neg_cancel]
    | false =>
        have hnonneg : 0 ≤ q := not_lt.1 fun hlt => Bool.false_ne_true ((hs hzero).2 hlt)
        rw [if_neg Bool.false_ne_true, abs_of_nonneg hnonneg]

/-- Two numbers of one absolute value that are equally far from another are one and the same, unless
the other is zero. -/
theorem eq_or_eq_zero_of_abs_sub_eq {u v : ℚ} (huv : |u| = |v|) (htie : |q - v| = |q - u|) :
    u = v ∨ q = 0 := by
  obtain heq | rfl := abs_eq_abs.1 huv
  · exact .inl heq
  · rw [← sq_eq_sq_iff_abs_eq_abs] at htie
    have hprod : q * v = 0 := by linarith
    rcases mul_eq_zero.1 hprod with hq | rfl
    · exact .inr hq
    · exact .inl neg_zero

/-- **A fraction is rounded to the nearest double** with its sign. -/
theorem isNearest_ofFraction {s : Bool} (hd : 0 < d) (habs : |q| = ofUnits n d)
    (hs : q ≠ 0 → (s = true ↔ q < 0)) : IsNearest q (ofFraction s n d) := by
  have hinfinite : (ofFraction s n d).isInfinite = true ↔ overflowThreshold ≤ |q| := by
    rw [habs, ← infinityMagnitude_le_iff hd, isInfinite, beq_iff_eq, magnitude_ofFraction]
    exact ⟨ge_of_eq, le_antisymm (nearestMagnitude_le n d)⟩
  -- the distance from the double is one of absolute values, and no other double is nearer than that
  have hnear : ∀ {v : ℚ}, (ofFraction s n d).value? = some v →
      |q - v| = |ofUnits n d - absValue (nearestMagnitude n d)| := by
    intro v hv
    rw [← (value?_eq_iff.1 hv).2, finiteValue_eq, ← habs, ← abs_sub_of_sign s |q|, ← eq_ite_abs hs]
    rfl
  have hfar : ∀ {w : Binary64} {u : ℚ}, w.value? = some u →
      |ofUnits n d - absValue w.magnitude| ≤ |q - u| := by
    intro w u hu
    rw [← habs, ← abs_of_value? hu]
    exact abs_abs_sub_abs_le q u
  have hinterval : ∀ {v : ℚ}, (ofFraction s n d).value? = some v →
      RoundsTo (nearestMagnitude n d) (2 * n) d := fun hv =>
    (nearestMagnitude_eq_iff_roundsTo hd (of_decide_eq_true (value?_eq_iff.1 hv).1)).1 rfl
  have hnearest : ∀ {w : Binary64} {u v : ℚ}, (ofFraction s n d).value? = some v →
      w.value? = some u → |q - v| ≤ |q - u| := by
    intro w u v hv hu
    rw [hnear hv]
    by_cases hw : w.magnitude = nearestMagnitude n d
    · exact hw ▸ hfar hu
    · exact (abs_sub_absValue_le hd (hinterval hv) hw).1.trans (hfar hu)
  refine ⟨hs, hinfinite, fun hlt => ?_, hnearest, fun {w u v} hv hu htie hne => ?_⟩
  · refine ⟨_, value?_eq_iff.2 ⟨?_, rfl⟩⟩
    rw [isFinite, decide_eq_true_eq, magnitude_ofFraction, ← not_le, infinityMagnitude_le_iff hd,
      ← habs, not_le]
    exact hlt
  · by_cases hw : w.magnitude = nearestMagnitude n d
    · -- a double and the one of the other sign are equally near to nothing but zero
      have huv : |u| = |v| := by
        rw [abs_of_value? hu, abs_of_value? hv, hw, magnitude_ofFraction]
      obtain heq | rfl := eq_or_eq_zero_of_abs_sub_eq huv htie
      · exact absurd heq hne
      · have hle := hnearest hv (value?_zero false)
        rw [zero_sub, abs_neg, sub_zero, abs_zero, abs_nonpos_iff] at hle
        rw [hle, abs_zero, abs_eq_zero] at huv
        exact absurd (huv.trans hle.symm) hne
    · rw [fractionField_mod_two, magnitude_ofFraction]
      by_contra hodd
      rw [hnear hv] at htie
      have hlt := (abs_sub_absValue_le hd (hinterval hv) hw).2 hodd
      exact absurd htie (hlt.trans_le (hfar hu)).ne

/-! ### Only one -/

/-- A double between two that are equally near is nearer. -/
theorem abs_sub_lt_of_between {a b : ℚ} (hd : |q - a| = |q - b|) (hau : a < u) (hub : u < b) :
    |q - u| < |q - a| := by
  have hmid : a + b = 2 * q := by
    have hab : a < b := hau.trans hub
    exact le_antisymm ((abs_sub_le_right_iff hab).1 hd.ge) ((abs_sub_le_left_iff hab).1 hd.le)
  rw [lt_iff_not_ge, abs_sub_le_left_iff hau]
  linarith

/-- Of two nearest doubles neither is farther from zero: both would be even, and the double next to
the one in the direction of the other nearer than both. -/
theorem IsNearest.magnitude_le (hx : IsNearest q x) (hy : IsNearest q y)
    (hs : x.negative = y.negative) (hlt : |q| < overflowThreshold) :
    y.magnitude ≤ x.magnitude := by
  obtain ⟨a, ha⟩ := hx.exists_value hlt
  obtain ⟨b, hb⟩ := hy.exists_value hlt
  have htie : |q - a| = |q - b| := le_antisymm (hx.nearest ha hb) (hy.nearest hb ha)
  by_contra hgt
  have hgt : x.magnitude < y.magnitude := not_le.1 hgt
  have hne : b ≠ a := by
    rintro rfl
    have habs := (abs_of_value? ha).symm.trans (abs_of_value? hb)
    exact hgt.ne (absValue_strictMono.injective habs)
  have heven : x.magnitude % 2 = 0 := fractionField_mod_two x ▸ hx.even ha hb htie hne
  have heven' : y.magnitude % 2 = 0 := fractionField_mod_two y ▸ hy.even hb ha htie.symm hne.symm
  have hfin : y.magnitude < infinityMagnitude := of_decide_eq_true (value?_eq_iff.1 hb).1
  obtain ⟨w, hws, hwm⟩ : ∃ w : Binary64, w.negative = x.negative ∧ w.magnitude = x.magnitude + 1 :=
    ⟨⟨x.negative, x.magnitude + 1, by have := y.magnitude_lt; omega⟩, rfl, rfl⟩
  have hu : w.value? = some w.finiteValue := value?_eq_iff.2 ⟨decide_eq_true (by omega), rfl⟩
  have hxw : absValue x.magnitude < absValue w.magnitude := absValue_strictMono (by omega)
  have hwy : absValue w.magnitude < absValue y.magnitude := absValue_strictMono (by omega)
  have hax := hx.nearest ha hu
  have hby := hy.nearest hb hu
  rw [← (value?_eq_iff.1 ha).2, ← (value?_eq_iff.1 hb).2, finiteValue_eq, finiteValue_eq,
    ← hs] at htie
  rw [← (value?_eq_iff.1 ha).2, finiteValue_eq, finiteValue_eq, hws] at hax
  rw [← (value?_eq_iff.1 hb).2, finiteValue_eq, finiteValue_eq, hws, ← hs] at hby
  cases hneg : x.negative with
  | false =>
      simp only [hneg, Bool.false_eq_true, if_false] at htie hax
      exact absurd hax (abs_sub_lt_of_between htie hxw hwy).not_ge
  | true =>
      simp only [hneg, if_true] at htie hby
      exact absurd hby (abs_sub_lt_of_between htie.symm (neg_lt_neg hwy) (neg_lt_neg hxw)).not_ge

/-- **There is no other nearest double** of the same sign. -/
theorem IsNearest.unique (hx : IsNearest q x) (hy : IsNearest q y) (hs : x.negative = y.negative) :
    x = y := by
  refine eq_of_magnitude hs ?_
  by_cases hlt : |q| < overflowThreshold
  · exact le_antisymm (hy.magnitude_le hx hs.symm hlt) (hx.magnitude_le hy hs hlt)
  · have hinf : x.isInfinite = true := hx.isInfinite_iff.2 (not_lt.1 hlt)
    have hinf' : y.isInfinite = true := hy.isInfinite_iff.2 (not_lt.1 hlt)
    rw [isInfinite, beq_iff_eq] at hinf hinf'
    rw [hinf, hinf']

end LogicTerms.Binary64
