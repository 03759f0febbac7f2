/-
**The double nearest to a fraction.**

Between two neighbouring doubles rounding changes at their midpoint, which belongs to the one of
even magnitude.  So a fraction is rounded to a magnitude or a greater one exactly if it reaches the
midpoint below that magnitude.  This says all there is about rounding: that it is monotone, that
equal fractions are rounded alike however they are written, and that the fractions which round to a
finite magnitude are those in its interval.

It is first proved of whole numbers, whose midpoints are the halves, and carried over to doubles one
segment at a time.  A segment is a run of magnitudes whose doubles are equally far apart.

Main definitions:

* `Binary64.Reaches` — the bound below a number is reached, by itself only if the number is even.

Main results:

* `Binary64.le_roundHalfEven_iff` — rounding to whole numbers, by the halves;
* `Binary64.units_segment` — a segment of doubles;
* `Binary64.le_nearestMagnitude_iff` — **rounding to doubles, by the midpoints**;
* `Binary64.nearestMagnitude_eq_iff_roundsTo` — the fractions that round to a finite magnitude;
* `Binary64.nearestMagnitude_congr` — equal fractions are rounded alike.
-/

import LogicTerms.Binary64.Shortest
import LogicTerms.Proofs.Binary64.Order

set_option relaxedAutoImplicit false
set_option autoImplicit false

namespace LogicTerms.Binary64

variable {m n d n' d' : ℕ}

/-! ### Bounds -/

/-- What reaches the bound `b` below `m`: everything above the bound, and the bound itself if `m` is
even. -/
def Reaches (m b a : ℕ) : Prop := if m % 2 = 0 then b ≤ a else b < a

theorem Reaches.le {b a : ℕ} (h : Reaches m b a) : b ≤ a := by
  rw [Reaches] at h
  split at h <;> omega

theorem reaches_of_lt {b a : ℕ} (h : b < a) : Reaches m b a := by
  rw [Reaches]
  split <;> omega

theorem reaches_zero (a : ℕ) : Reaches 0 0 a := Nat.zero_le a

theorem Reaches.mono {b a a' : ℕ} (h : Reaches m b a) (ha : a ≤ a') : Reaches m b a' := by
  rw [Reaches] at h ⊢
  split at h
  · rw [if_pos ‹_›]
    omega
  · rw [if_neg ‹_›]
    omega

theorem reaches_mul_iff {b a k : ℕ} (hk : 0 < k) : Reaches m (b * k) (a * k) ↔ Reaches m b a := by
  rw [Reaches, Reaches, Nat.mul_le_mul_right_iff hk, Nat.mul_lt_mul_right hk]

/-! ### Whole numbers -/

/-- **A fraction is rounded up to a whole number** from half a step below it. -/
theorem le_roundHalfEven_iff {j : ℕ} (hd : 0 < d) :
    j + 1 ≤ roundHalfEven n d ↔ Reaches (j + 1) ((2 * j + 1) * d) (2 * n) := by
  have hn : n = n / d * d + n % d := (Nat.div_add_mod' n d).symm
  have hr := Nat.mod_lt n hd
  rw [roundHalfEven, Reaches, Nat.add_mul, Nat.one_mul, Nat.mul_assoc]
  generalize n / d = q at *
  generalize n % d = r at *
  subst hn
  rcases lt_trichotomy j q with hlt | rfl | hgt
  · have hstep : (j + 1) * d ≤ q * d := Nat.mul_le_mul_right d hlt
    rw [Nat.add_mul] at hstep
    grind
  · grind
  · have hstep : (q + 1) * d ≤ j * d := Nat.mul_le_mul_right d hgt
    rw [Nat.add_mul] at hstep
    grind

/-- A fraction that is no less than a whole number is rounded to no less. -/
theorem le_roundHalfEven_of_le {j : ℕ} (hd : 0 < d) (h : j * d ≤ n) : j ≤ roundHalfEven n d := by
  cases j with
  | zero => exact Nat.zero_le _
  | succ j =>
      refine (le_roundHalfEven_iff hd).2 (reaches_of_lt ?_)
      rw [Nat.add_mul] at h ⊢
      rw [Nat.mul_assoc]
      omega

/-- A fraction that is less than a whole number is rounded to no more. -/
theorem roundHalfEven_le_of_lt {j : ℕ} (hd : 0 < d) (h : n < j * d) : roundHalfEven n d ≤ j := by
  by_contra hlt
  have hreach := ((le_roundHalfEven_iff hd).1 (Nat.lt_of_not_le hlt)).le
  rw [Nat.add_mul, Nat.mul_assoc] at hreach
  omega

/-! ### Segments -/

/-- **A segment of doubles**: within it a magnitude more is as many units more as the power of two
that belongs to it. -/
theorem units_segment {k j : ℕ} (hk : k = 0 ∨ 2 ^ 52 ≤ j) (hj : j ≤ 2 ^ 53) :
    units (k * 2 ^ 52 + j) = j * 2 ^ k := by
  rw [units]
  obtain hlow | hhigh | htop : j < 2 ^ 52 ∨ 2 ^ 52 ≤ j ∧ j < 2 ^ 53 ∨ j = 2 ^ 53 := by omega
  · obtain rfl : k = 0 := by omega
    rw [if_pos (by omega)]
    omega
  · have hdiv : (k * 2 ^ 52 + j) / 2 ^ 52 - 1 = k := by omega
    have hmod : 2 ^ 52 + (k * 2 ^ 52 + j) % 2 ^ 52 = j := by omega
    rw [if_neg (by omega), hdiv, hmod]
  · -- the end of the segment, which is the start of the next one
    subst htop
    have hdiv : (k * 2 ^ 52 + 2 ^ 53) / 2 ^ 52 - 1 = k + 1 := by omega
    have hmod : 2 ^ 52 + (k * 2 ^ 52 + 2 ^ 53) % 2 ^ 52 = 2 ^ 52 := by omega
    rw [if_neg (by omega), hdiv, hmod, Nat.pow_succ, Nat.pow_succ]
    ring

/-- The segment of a fraction: its units have 53 digits there, or fewer in the lowest one. -/
theorem exists_segment (n : ℕ) (hd : 0 < d) :
    ∃ lo ≤ 2 ^ 53, (excess (n / d) = 0 ∨ 2 ^ 52 ≤ lo) ∧
      lo * (d * 2 ^ excess (n / d)) ≤ n ∧ n < 2 ^ 53 * (d * 2 ^ excess (n / d)) := by
  have hup : n / d < 2 ^ (excess (n / d) + 53) :=
    lt_of_lt_of_le Nat.lt_log2_self (Nat.pow_le_pow_right (by decide) (by rw [excess]; omega))
  have hlt : n < 2 ^ 53 * (d * 2 ^ excess (n / d)) :=
    calc n < 2 ^ (excess (n / d) + 53) * d := (Nat.div_lt_iff_lt_mul hd).1 hup
      _ = 2 ^ 53 * (d * 2 ^ excess (n / d)) := by ring
  by_cases hzero : excess (n / d) = 0
  · exact ⟨0, by decide, .inl hzero, by omega, hlt⟩
  · have hlog : excess (n / d) + 52 = (n / d).log2 := by
      rw [excess] at hzero ⊢
      omega
    have hne : n / d ≠ 0 := by
      intro h
      rw [h, excess] at hzero
      exact hzero rfl
    have hdown : 2 ^ (excess (n / d) + 52) ≤ n / d := hlog ▸ Nat.log2_self_le hne
    refine ⟨2 ^ 52, by decide, .inr le_rfl, ?_, hlt⟩
    calc 2 ^ 52 * (d * 2 ^ excess (n / d)) = 2 ^ (excess (n / d) + 52) * d := by ring
      _ ≤ n := (Nat.le_div_iff_mul_le hd).1 hdown

/-! ### Doubles -/

theorem lowerMidpoint_succ (m : ℕ) : lowerMidpoint (m + 1) = upperMidpoint m := rfl

theorem lowerMidpoint_zero : lowerMidpoint 0 = 0 := rfl

theorem lowerMidpoint_lt (hm : m ≠ 0) : lowerMidpoint m < 2 * units m := by
  have hlt : units (m - 1) < units m := units_strictMono (by omega)
  rw [lowerMidpoint]
  omega

/-- Within a segment the midpoints are halves. -/
theorem lowerMidpoint_segment {k j : ℕ} (hk : k = 0 ∨ 2 ^ 52 ≤ j) (hj : j + 1 ≤ 2 ^ 53) :
    lowerMidpoint (k * 2 ^ 52 + (j + 1)) = (2 * j + 1) * 2 ^ k := by
  rw [lowerMidpoint, ← Nat.add_assoc, Nat.add_sub_cancel, Nat.add_assoc,
    units_segment hk (by omega), units_segment (by omega) hj]
  ring

/-- A fraction that is no less than a double is above the midpoint below it. -/
theorem reaches_of_units_le (hd : 0 < d) (h : units m * d ≤ n) :
    Reaches m (lowerMidpoint m * d) (2 * n) := by
  by_cases hm : m = 0
  · subst hm
    rw [lowerMidpoint_zero, Nat.zero_mul]
    exact reaches_zero _
  · refine reaches_of_lt ?_
    calc lowerMidpoint m * d < 2 * units m * d :=
          Nat.mul_lt_mul_of_pos_right (lowerMidpoint_lt hm) hd
      _ = 2 * (units m * d) := Nat.mul_assoc 2 _ d
      _ ≤ 2 * n := Nat.mul_le_mul_left 2 h

/-- A fraction that is less than a double is below the midpoint above it. -/
theorem not_reaches_of_lt_units (h : n < units (m - 1) * d) :
    ¬ Reaches m (lowerMidpoint m * d) (2 * n) := by
  intro hreach
  have hle : units (m - 1) ≤ units m := units_strictMono.monotone (Nat.sub_le m 1)
  have hmid : 2 * (units (m - 1) * d) ≤ lowerMidpoint m * d := by
    rw [← Nat.mul_assoc, lowerMidpoint]
    exact Nat.mul_le_mul_right d (by omega)
  have := hreach.le
  omega

/-- Rounding before the cut at infinity, which splits along the segment of the fraction. -/
theorem le_nearest_iff (n : ℕ) (hd : 0 < d) :
    m ≤ excess (n / d) * 2 ^ 52 + roundHalfEven n (d * 2 ^ excess (n / d)) ↔
      Reaches m (lowerMidpoint m * d) (2 * n) := by
  obtain ⟨lo, hlo, hsegment, hlow, hhigh⟩ := exists_segment n hd
  generalize excess (n / d) = k at *
  have hstep : 0 < d * 2 ^ k := Nat.mul_pos hd (Nat.two_pow_pos k)
  obtain hbelow | ⟨j, hj, hlast, rfl⟩ | habove : m ≤ k * 2 ^ 52 + lo ∨
      (∃ j, lo ≤ j ∧ j + 1 ≤ 2 ^ 53 ∧ k * 2 ^ 52 + (j + 1) = m) ∨ k * 2 ^ 52 + 2 ^ 53 < m := by
    by_cases h : m ≤ k * 2 ^ 52 + lo
    · exact .inl h
    · by_cases h' : k * 2 ^ 52 + 2 ^ 53 < m
      · exact .inr (.inr h')
      · exact .inr (.inl ⟨m - k * 2 ^ 52 - 1, by omega, by omega, by omega⟩)
  · -- up to the start of the segment everything is reached
    have hround := le_roundHalfEven_of_le hstep hlow
    refine iff_of_true (by omega) (reaches_of_units_le hd ?_)
    calc units m * d ≤ units (k * 2 ^ 52 + lo) * d :=
          Nat.mul_le_mul_right d (units_strictMono.monotone hbelow)
      _ = lo * (d * 2 ^ k) := by
          rw [units_segment hsegment hlo]
          ring
      _ ≤ n := hlow
  · -- within the segment the midpoints are halves
    have hparity : (k * 2 ^ 52 + (j + 1)) % 2 = (j + 1) % 2 := by omega
    rw [Nat.add_le_add_iff_left, le_roundHalfEven_iff hstep, Reaches, Reaches, hparity,
      lowerMidpoint_segment (by omega) hlast, Nat.mul_assoc, Nat.mul_comm (2 ^ k)]
  · -- the segment ends above the fraction
    have hround := roundHalfEven_le_of_lt hstep hhigh
    refine iff_of_false (by omega) (not_reaches_of_lt_units ?_)
    calc n < 2 ^ 53 * (d * 2 ^ k) := hhigh
      _ = units (k * 2 ^ 52 + 2 ^ 53) * d := by
          rw [units_segment (by omega) le_rfl]
          ring
      _ ≤ units (m - 1) * d := Nat.mul_le_mul_right d (units_strictMono.monotone (by omega))

/-- **Rounding to doubles.**  A fraction is rounded to a magnitude, or to a greater one, exactly if
it reaches the midpoint below. -/
theorem le_nearestMagnitude_iff (hd : 0 < d) (hm : m ≤ infinityMagnitude) :
    m ≤ nearestMagnitude n d ↔ Reaches m (lowerMidpoint m * d) (2 * n) := by
  rw [nearestMagnitude, le_min_iff, and_iff_right hm, le_nearest_iff n hd]

theorem roundsTo_iff_reaches :
    RoundsTo m n d ↔
      Reaches m (lowerMidpoint m * d) n ∧ ¬ Reaches (m + 1) (lowerMidpoint (m + 1) * d) n := by
  rw [RoundsTo, Reaches, Reaches, lowerMidpoint_succ]
  grind

/-- **The fractions that round to a finite magnitude** are those in its interval. -/
theorem nearestMagnitude_eq_iff_roundsTo (hd : 0 < d) (hm : m < infinityMagnitude) :
    nearestMagnitude n d = m ↔ RoundsTo m (2 * n) d := by
  rw [roundsTo_iff_reaches, ← le_nearestMagnitude_iff hd hm.le, ← le_nearestMagnitude_iff hd hm]
  omega

/-- Rounding is monotone. -/
theorem nearestMagnitude_mono (hd : 0 < d) (hd' : 0 < d') (h : n * d' ≤ n' * d) :
    nearestMagnitude n d ≤ nearestMagnitude n' d' := by
  have hm := nearestMagnitude_le n d
  have hreach := (le_nearestMagnitude_iff hd hm).1 le_rfl
  have hle : 2 * n * d' ≤ 2 * n' * d := by
    rw [Nat.mul_assoc, Nat.mul_assoc]
    omega
  rw [← reaches_mul_iff hd', Nat.mul_right_comm] at hreach
  rw [le_nearestMagnitude_iff hd' hm, ← reaches_mul_iff hd]
  exact hreach.mono hle

/-- **Equal fractions are rounded alike**, however they are written. -/
theorem nearestMagnitude_congr (hd : 0 < d) (hd' : 0 < d') (h : n * d' = n' * d) :
    nearestMagnitude n d = nearestMagnitude n' d' :=
  le_antisymm (nearestMagnitude_mono hd hd' h.le) (nearestMagnitude_mono hd' hd h.ge)

end LogicTerms.Binary64
