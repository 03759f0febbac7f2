/-
**Rounding a fraction to the nearest double.**

A non-negative fraction of units is rounded in one step.  It is first divided by the power of two
that leaves 53 digits before the point (or by none, where the doubles are one unit apart), then
rounded to a whole number, a half going to the even neighbour.  Because magnitudes are in the
order of values, that whole number and the exponent together are the magnitude: a carry past 53
digits moves to the next exponent by itself, and what passes the largest double is infinity.

Main definitions:

* `Binary64.roundHalfEven` — a fraction to the nearest whole number, halves to even;
* `Binary64.nearestMagnitude` — a fraction of units to the magnitude of the nearest double;
* `Binary64.ofRat`, `Binary64.ofInt` — the nearest double of an exact number.

Main results:

* `Binary64.roundHalfEven_le`, `Binary64.le_roundHalfEven` — the whole number is within a half;
* `Binary64.nearestMagnitude_le` — no fraction rounds to a NaN.
-/

import LogicTerms.Binary64.Basic

set_option relaxedAutoImplicit false
set_option autoImplicit false

namespace LogicTerms.Binary64

/-! ### Fractions to whole numbers -/

/-- The whole number nearest to `n / d`; of two equally near ones the even one. -/
def roundHalfEven (n d : Nat) : Nat :=
  let q := n / d
  let r := n % d
  if 2 * r < d then q
  else if d < 2 * r then q + 1
  else q + q % 2

/-- The whole number is at most a half above the fraction. -/
theorem roundHalfEven_le (n : Nat) {d : Nat} (hd : 0 < d) :
    2 * (roundHalfEven n d * d) ≤ 2 * n + d := by
  have hq := Nat.div_add_mod n d
  have hr := Nat.mod_lt n hd
  have hm : n / d * d = d * (n / d) := Nat.mul_comm _ _
  simp only [roundHalfEven]
  split
  · omega
  · split
    · rw [Nat.add_mul]
      omega
    · rcases Nat.mod_two_eq_zero_or_one (n / d) with h | h <;>
        rw [h, Nat.add_mul] <;> omega

/-- The whole number is at most a half below the fraction. -/
theorem le_roundHalfEven (n : Nat) {d : Nat} (hd : 0 < d) :
    2 * n ≤ 2 * (roundHalfEven n d * d) + d := by
  have hq := Nat.div_add_mod n d
  have hr := Nat.mod_lt n hd
  have hm : n / d * d = d * (n / d) := Nat.mul_comm _ _
  simp only [roundHalfEven]
  split
  · omega
  · split
    · rw [Nat.add_mul]
      omega
    · rcases Nat.mod_two_eq_zero_or_one (n / d) with h | h <;>
        rw [h, Nat.add_mul] <;> omega

/-! ### Fractions to doubles -/

/-- How far the units `u` lie above the range where doubles are one unit apart: the number of
binary digits of `u` beyond 53. -/
def excess (u : Nat) : Nat := u.log2 - 52

/-- The magnitude of the double nearest to `n / d` units, infinity included. -/
def nearestMagnitude (n d : Nat) : Nat :=
  let k := excess (n / d)
  min infinityMagnitude (k * 2 ^ 52 + roundHalfEven n (d * 2 ^ k))

/-- No fraction rounds to a NaN. -/
theorem nearestMagnitude_le (n d : Nat) : nearestMagnitude n d ≤ infinityMagnitude :=
  Nat.min_le_left _ _

/-- The double of the given sign nearest to `n / d` units. -/
def ofFraction (negative : Bool) (n d : Nat) : Binary64 where
  negative := negative
  magnitude := nearestMagnitude n d
  magnitude_lt := Nat.lt_of_le_of_lt (nearestMagnitude_le n d) (by decide)

/-- The double nearest to a rational number; zero is `+0.0`. -/
def ofRat (q : Rat) : Binary64 :=
  ofFraction (q.num < 0) (q.num.natAbs * unitsPerOne) q.den

/-- The double nearest to an integer; zero is `+0.0`. -/
def ofInt (i : Int) : Binary64 :=
  ofFraction (i < 0) (i.natAbs * unitsPerOne) 1

end LogicTerms.Binary64
