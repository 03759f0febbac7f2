/-
**Arithmetic on doubles is exact arithmetic, rounded.**

Operations on doubles are specified in two steps.  The first is exact: it works with the values of the
operands, to which the infinities and the signs of zeros belong, and it has rules for the forms that
have no value, such as the difference of two infinities.  The second rounds what has come out, a
rational number to the nearest double.  A double that is computed in one go is right if it is what
the second step makes of the first.

Main definitions:

* `Binary64.Exact` — the value of a double, or what comes of an operation before it is rounded;
* `Binary64.Exact.add`, `Binary64.Exact.sub`, `Binary64.Exact.mul`, `Binary64.Exact.div` — the exact
  operations;
* `Binary64.Exact.Rounds` — what an exact result is rounded to.

Main results:

* `Binary64.Exact.Rounds.unique` — but for NaNs there is one double that it is rounded to;
* `Binary64.rounds_add`, `Binary64.rounds_sub`, `Binary64.rounds_mul`, `Binary64.rounds_div` — **the
  operations on doubles are the exact operations, rounded**.
-/

import LogicTerms.Proofs.Binary64.Nearest

set_option relaxedAutoImplicit false
set_option autoImplicit false

namespace LogicTerms.Binary64

variable {p q : ℚ} {x y z : Binary64}

/-! ### Exact values -/

/-- The value of a double, or what comes of an operation before it is rounded. -/
inductive Exact where
  /-- A NaN, or a form without a value. -/
  | undefined
  /-- An infinity. -/
  | infinite (negative : Bool)
  /-- A rational number; it has a sign apart from its value, which tells the two zeros apart. -/
  | finite (negative : Bool) (value : ℚ)

/-- The exact value of a double. -/
def exact (x : Binary64) : Exact :=
  match x.value? with
  | some v => .finite x.negative v
  | none => if x.isNaN then .undefined else .infinite x.negative

namespace Exact

/-- The other sign. -/
def neg : Exact → Exact
  | undefined => undefined
  | infinite s => infinite !s
  | finite s p => finite (!s) (-p)

/-- The sum.  Infinities of different signs have none, and the sum zero is negative only if both
operands are. -/
def add : Exact → Exact → Exact
  | undefined, _ => undefined
  | _, undefined => undefined
  | infinite s, infinite t => if s = t then infinite s else undefined
  | infinite s, finite _ _ => infinite s
  | finite _ _, infinite t => infinite t
  | finite s p, finite t q => finite (if p + q = 0 then s && t else decide (p + q < 0)) (p + q)

/-- The difference, which is the sum with the other sign. -/
def sub (a b : Exact) : Exact := a.add b.neg

/-- The product, negative if the signs are different.  Zero times infinity has none. -/
def mul : Exact → Exact → Exact
  | undefined, _ => undefined
  | _, undefined => undefined
  | infinite s, infinite t => infinite (s != t)
  | infinite s, finite t q => if q = 0 then undefined else infinite (s != t)
  | finite s p, infinite t => if p = 0 then undefined else infinite (s != t)
  | finite s p, finite t q => finite (s != t) (p * q)

/-- The quotient, negative if the signs are different.  Zero by zero and infinity by infinity have
none, and all else by zero is infinite. -/
def div : Exact → Exact → Exact
  | undefined, _ => undefined
  | _, undefined => undefined
  | infinite _, infinite _ => undefined
  | infinite s, finite t _ => infinite (s != t)
  | finite s _, infinite t => finite (s != t) 0
  | finite s p, finite t q =>
    if q = 0 then if p = 0 then undefined else infinite (s != t) else finite (s != t) (p / q)

/-- **What an exact result is rounded to**: any NaN if it is undefined, the infinity of its sign, or
the nearest double of its sign. -/
def Rounds : Exact → Binary64 → Prop
  | undefined, z => z.isNaN = true
  | infinite s, z => z = infinity s
  | finite s q, z => z.negative = s ∧ IsNearest q z

/-- But for NaNs there is one double that a result is rounded to. -/
theorem Rounds.unique {e : Exact} (hx : e.Rounds x) (hy : e.Rounds y) :
    x = y ∨ x.isNaN = true ∧ y.isNaN = true := by
  cases e with
  | undefined => exact .inr ⟨hx, hy⟩
  | infinite s => exact .inl (Eq.trans hx (Eq.symm hy))
  | finite s q => exact .inl (hx.2.unique hy.2 (hx.1.trans hy.1.symm))

end Exact

/-! ### Values with signs -/

theorem isZero_iff (x : Binary64) : x.isZero = true ↔ x.finiteValue = 0 := by
  rw [← abs_eq_zero, abs_finiteValue, ← absValue_zero, absValue_strictMono.injective.eq_iff, isZero,
    beq_iff_eq]

/-- The sign of a value that is not zero. -/
theorem negative_iff_finiteValue_neg (h : x.finiteValue ≠ 0) :
    x.negative = true ↔ x.finiteValue < 0 := by
  have hpos : 0 < absValue x.magnitude := abs_finiteValue x ▸ abs_pos.2 h
  rw [finiteValue_eq]
  cases x.negative with
  | true => simpa using hpos
  | false => simpa using hpos.le

/-- Doubles of different signs, if they are not zero. -/
theorem negative_bne_iff (hx : x.finiteValue ≠ 0) (hy : y.finiteValue ≠ 0) :
    (x.negative != y.negative) = true ↔
      0 < x.finiteValue ∧ y.finiteValue < 0 ∨ x.finiteValue < 0 ∧ 0 < y.finiteValue := by
  have hsigns : ∀ {z : Binary64}, z.finiteValue ≠ 0 →
      (z.negative = true ↔ z.finiteValue < 0) ∧ (z.negative = false ↔ 0 < z.finiteValue) := by
    intro z hz
    have hneg := negative_iff_finiteValue_neg hz
    refine ⟨hneg, ?_⟩
    rw [← Bool.not_eq_true, hneg, not_lt, le_iff_lt_or_eq, or_iff_left hz.symm]
  rw [← (hsigns hx).1, ← (hsigns hx).2, ← (hsigns hy).1, ← (hsigns hy).2]
  cases x.negative <;> cases y.negative <;> simp

theorem signedUnits_neg (x : Binary64) : x.neg.signedUnits = -x.signedUnits := by
  rw [signedUnits, signedUnits, neg]
  cases x.negative <;> simp

theorem value?_neg (x : Binary64) : x.neg.value? = x.value?.map (-·) := by
  have hfin : x.neg.isFinite = x.isFinite := rfl
  rw [value?, value?, hfin, signedUnits_neg, Rat.mkRat_eq_div, Rat.mkRat_eq_div, Int.cast_neg,
    neg_div]
  split <;> rfl

theorem exact_neg (x : Binary64) : x.neg.exact = x.exact.neg := by
  have hnan : x.neg.isNaN = x.isNaN := rfl
  rw [exact, exact, value?_neg, hnan]
  cases x.value? with
  | some v => rfl
  | none => cases x.isNaN <;> rfl

/-! ### The classes of doubles -/

/-- The class of a double, with its exact value. -/
inductive Classified (x : Binary64) : Prop
  | nan (h : x.isNaN = true) (hexact : x.exact = .undefined)
  | infinite (hnan : x.isNaN = false) (hinf : x.isInfinite = true) (hzero : x.isZero = false)
      (h : x = infinity x.negative) (hexact : x.exact = .infinite x.negative)
  | finite (hnan : x.isNaN = false) (hinf : x.isInfinite = false)
      (hexact : x.exact = .finite x.negative x.finiteValue)

theorem classified (x : Binary64) : Classified x := by
  have hclass : x.isNaN = decide (infinityMagnitude < x.magnitude) ∧
      x.isInfinite = (x.magnitude == infinityMagnitude) ∧
      x.isFinite = decide (x.magnitude < infinityMagnitude) := ⟨rfl, rfl, rfl⟩
  obtain hfin | hinf | hnan := x.isFinite_or
  · refine .finite ?_ ?_ ?_
    · grind
    · grind
    · rw [exact, value?_eq_iff.2 ⟨hfin, rfl⟩]
  · have hnone : x.value? = none := value?_eq_none_iff.2 (by grind)
    have hnan : x.isNaN = false := by grind
    have h := eq_infinity_of_isInfinite hinf
    refine .infinite hnan hinf (h ▸ rfl) h ?_
    rw [exact, hnone]
    simp only [hnan, Bool.false_eq_true, if_false]
  · have hnone : x.value? = none := value?_eq_none_iff.2 (by grind)
    refine .nan hnan ?_
    rw [exact, hnone]
    simp only [hnan, if_true]

/-! ### The operations -/

theorem isNaN_nan (s : Bool) : (nan s).isNaN = true :=
  decide_eq_true (Nat.lt_add_of_pos_right (Nat.two_pow_pos 51))

theorem isNearest_zero (s : Bool) : IsNearest 0 (zero s) := by
  have hzero : zero s = ofFraction s 0 1 :=
    eq_of_magnitude rfl (nearestMagnitude_eq_zero Nat.one_pos (by decide)).symm
  rw [hzero]
  refine isNearest_ofFraction Nat.one_pos ?_ fun h => absurd rfl h
  rw [abs_zero, ofUnits, Nat.cast_zero, zero_div]

theorem rounds_zero (s : Bool) : (Exact.finite s 0).Rounds (zero s) := ⟨rfl, isNearest_zero s⟩

/-- The sum of finite doubles. -/
theorem rounds_addFinite (x y : Binary64) :
    (Exact.add (.finite x.negative x.finiteValue) (.finite y.negative y.finiteValue)).Rounds
      (x.addFinite y) := by
  have hU := cast_unitsPerOne_pos
  have hsum : x.finiteValue + y.finiteValue = ((x.signedUnits + y.signedUnits : ℤ) : ℚ) /
      (unitsPerOne : ℕ) := by
    rw [finiteValue, finiteValue, Int.cast_add, add_div]
  rw [Exact.add, hsum, addFinite]
  generalize x.signedUnits + y.signedUnits = k
  have hzero : (k : ℚ) / (unitsPerOne : ℕ) = 0 ↔ k = 0 := by
    rw [div_eq_zero_iff, or_iff_left hU.ne', Int.cast_eq_zero]
  have hneg : (k : ℚ) / (unitsPerOne : ℕ) < 0 ↔ k < 0 := by
    rw [div_lt_iff₀ hU, zero_mul, Int.cast_lt_zero]
  by_cases hk : k = 0
  · rw [if_pos (hzero.2 hk), hzero.2 hk]
    simp only [hk, if_true]
    exact ⟨rfl, isNearest_zero _⟩
  · rw [if_neg (mt hzero.1 hk)]
    simp only [hk, if_false]
    refine ⟨decide_eq_decide.2 hneg.symm, isNearest_ofFraction Nat.one_pos ?_ fun _ => ?_⟩
    · rw [abs_div, Nat.abs_cast, ofUnits, Nat.cast_one, one_mul, Nat.cast_natAbs, Int.cast_abs]
    · rw [decide_eq_true_eq, hneg]

/-- **Sums are rounded once.** -/
theorem rounds_add (x y : Binary64) : (x.exact.add y.exact).Rounds (x.add y) := by
  cases x.classified with
  | nan hx hex =>
      rw [hex, add, if_pos hx]
      exact hx
  | infinite hx hxinf hxzero hx' hex =>
      cases y.classified with
      | nan hy hey => simp [hex, hey, add, hx, hy, Exact.add, Exact.Rounds]
      | infinite hy hyinf hyzero hy' hey =>
          by_cases hs : x.negative = y.negative
          · simpa [hex, hey, add, hx, hy, hxinf, hyinf, Exact.add, Exact.Rounds, hs] using hx'
          · simp [hex, hey, add, hx, hy, hxinf, hyinf, Exact.add, Exact.Rounds, hs, isNaN_nan]
      | finite hy hyinf hey =>
          simpa [hex, hey, add, hx, hy, hxinf, hyinf, Exact.add, Exact.Rounds] using hx'
  | finite hx hxinf hex =>
      cases y.classified with
      | nan hy hey => simp [hex, hey, add, hx, hy, Exact.add, Exact.Rounds]
      | infinite hy hyinf hyzero hy' hey =>
          simpa [hex, hey, add, hx, hy, hxinf, hyinf, Exact.add, Exact.Rounds] using hy'
      | finite hy hyinf hey =>
          simpa [hex, hey, add, hx, hy, hxinf, hyinf] using rounds_addFinite x y

/-- **Differences are rounded once.** -/
theorem rounds_sub (x y : Binary64) : (x.exact.sub y.exact).Rounds (x.sub y) := by
  rw [sub, Exact.sub, ← exact_neg]
  exact rounds_add x y.neg

/-- The product of finite doubles. -/
theorem isNearest_mul (x y : Binary64) :
    IsNearest (x.finiteValue * y.finiteValue)
      (ofFraction (x.negative != y.negative) (units x.magnitude * units y.magnitude)
        unitsPerOne) := by
  refine isNearest_ofFraction unitsPerOne_pos ?_ fun h => ?_
  · rw [abs_mul, abs_finiteValue, abs_finiteValue, absValue, absValue, div_mul_div_comm, ofUnits,
      Nat.cast_mul]
  · rw [mul_neg_iff]
    exact negative_bne_iff (left_ne_zero_of_mul h) (right_ne_zero_of_mul h)

/-- **Products are rounded once.** -/
theorem rounds_mul (x y : Binary64) : (x.exact.mul y.exact).Rounds (x.mul y) := by
  cases x.classified with
  | nan hx hex =>
      rw [hex, mul, if_pos hx]
      exact hx
  | infinite hx hxinf hxzero hx' hex =>
      cases y.classified with
      | nan hy hey => simp [hex, hey, mul, hx, hy, Exact.mul, Exact.Rounds]
      | infinite hy hyinf hyzero hy' hey =>
          simp [hex, hey, mul, hx, hy, hxinf, hxzero, hyzero, Exact.mul, Exact.Rounds]
      | finite hy hyinf hey =>
          by_cases hzero : y.finiteValue = 0
          · simp [hex, hey, mul, hx, hy, hxinf, y.isZero_iff.2 hzero, Exact.mul, hzero,
              Exact.Rounds, isNaN_nan]
          · simp [hex, hey, mul, hx, hy, hxinf, hxzero, mt y.isZero_iff.1 hzero, Exact.mul, hzero,
              Exact.Rounds]
  | finite hx hxinf hex =>
      cases y.classified with
      | nan hy hey => simp [hex, hey, mul, hx, hy, Exact.mul, Exact.Rounds]
      | infinite hy hyinf hyzero hy' hey =>
          by_cases hzero : x.finiteValue = 0
          · simp [hex, hey, mul, hx, hy, hyinf, x.isZero_iff.2 hzero, Exact.mul, hzero,
              Exact.Rounds, isNaN_nan]
          · simp [hex, hey, mul, hx, hy, hyinf, hyzero, mt x.isZero_iff.1 hzero, Exact.mul, hzero,
              Exact.Rounds]
      | finite hy hyinf hey =>
          simpa [hex, hey, mul, hx, hy, hxinf, hyinf, Exact.mul, Exact.Rounds] using
            isNearest_mul x y

/-- The quotient of finite doubles. -/
theorem isNearest_div (hy : y.finiteValue ≠ 0) :
    IsNearest (x.finiteValue / y.finiteValue)
      (ofFraction (x.negative != y.negative) (units x.magnitude * unitsPerOne)
        (units y.magnitude)) := by
  have hpos : 0 < absValue y.magnitude := abs_finiteValue y ▸ abs_pos.2 hy
  have hU := cast_unitsPerOne_pos
  refine isNearest_ofFraction ?_ ?_ fun h => ?_
  · refine Nat.pos_of_ne_zero fun h => ?_
    rw [absValue, h, Nat.cast_zero, zero_div] at hpos
    exact lt_irrefl 0 hpos
  · rw [abs_div, abs_finiteValue, abs_finiteValue, absValue, absValue, ofUnits, Nat.cast_mul,
      div_div_div_cancel_right₀ hU.ne', mul_div_mul_right _ _ hU.ne']
  · rw [div_neg_iff]
    exact negative_bne_iff (left_ne_zero_of_mul (div_eq_mul_inv _ y.finiteValue ▸ h)) hy

/-- **Quotients are rounded once.** -/
theorem rounds_div (x y : Binary64) : (x.exact.div y.exact).Rounds (x.div y) := by
  cases x.classified with
  | nan hx hex =>
      rw [hex, div, if_pos hx]
      exact hx
  | infinite hx hxinf hxzero hx' hex =>
      cases y.classified with
      | nan hy hey => simp [hex, hey, div, hx, hy, Exact.div, Exact.Rounds]
      | infinite hy hyinf hyzero hy' hey =>
          simp [hex, hey, div, hx, hy, hxinf, hyinf, Exact.div, Exact.Rounds, isNaN_nan]
      | finite hy hyinf hey =>
          simp [hex, hey, div, hx, hy, hxinf, hyinf, Exact.div, Exact.Rounds]
  | finite hx hxinf hex =>
      cases y.classified with
      | nan hy hey => simp [hex, hey, div, hx, hy, Exact.div, Exact.Rounds]
      | infinite hy hyinf hyzero hy' hey =>
          simpa [hex, hey, div, hx, hy, hxinf, hyinf, Exact.div] using
            rounds_zero (x.negative != y.negative)
      | finite hy hyinf hey =>
          by_cases hzero : y.finiteValue = 0
          · by_cases hxzero : x.finiteValue = 0
            · simp [hex, hey, div, hx, hy, hxinf, hyinf, x.isZero_iff.2 hxzero,
                y.isZero_iff.2 hzero, Exact.div, hzero, hxzero, Exact.Rounds, isNaN_nan]
            · simp [hex, hey, div, hx, hy, hxinf, hyinf, mt x.isZero_iff.1 hxzero,
                y.isZero_iff.2 hzero, Exact.div, hzero, hxzero, Exact.Rounds]
          · simpa [hex, hey, div, hx, hy, hxinf, hyinf, mt y.isZero_iff.1 hzero, Exact.div, hzero,
              Exact.Rounds] using isNearest_div hzero

end LogicTerms.Binary64
