/-
**Numbers in the order of their values.**

Numbers of different kinds are compared by value and, where one of them is a NaN, as the doubles
that are nearest to them.  These are not two orders that might disagree: an exact number has a place
among those of the doubles, and since none of them is rounded to a NaN, a NaN is on the same side of
the number as of the double.  So the first comparison, together with the second one where it says
nothing, is the comparison of places, which is a linear order.

Main definitions:

* `Number.place` — the place of a number among those of the doubles;
* `Number.compareFallback` — the order by value, and that of the nearest doubles if there is none.

Main results:

* `Number.compareFallback_eq` — **numbers compare as their places**;
* `Term.compareNumbers_eq_iff` — numbers are in one place of the standard order if they differ in
  the sign of a zero at most.
-/

import LogicTerms.Proofs.Binary64.Order
import LogicTerms.Proofs.Term.Sameness
import LogicTerms.Term.Order

set_option relaxedAutoImplicit false
set_option autoImplicit false

namespace LogicTerms

namespace Binary64

/-- Doubles in one place differ in the sign of a zero at most. -/
theorem place_eq_iff {x y : Binary64} : x.place = y.place ↔ x.unsignZero = y.unsignZero := by
  rw [unsignZero_eq_iff]
  by_cases h : x.level = y.level
  · rw [← compare_eq_iff_eq, ← compareFallback_eq]
    by_cases h₂ : x.level = 2
    · rw [compareFallback_of_level_eq_two h₂ (h ▸ h₂), totalCompare, compare_eq_iff_eq]
      have hx := level_eq_two_iff.1 h₂
      have hy := level_eq_two_iff.1 (h ▸ h₂)
      rw [isNaN, decide_eq_true_eq] at hx hy
      rw [totalRank, totalRank, rank, rank]
      split <;> split <;> omega
    · rw [compareFallback_of_level_lt_two (by grind [level]) (by grind [level]), compare_eq_iff_eq]
  · constructor
    · intro hp
      have htier : x.tier = y.tier := congrArg (fun p => (ofLex p).1) hp
      have hx := x.natAbs_tier
      have hy := y.natAbs_tier
      omega
    · intro hr
      have hm : x.magnitude = y.magnitude := by
        rw [rank, rank] at hr
        grind
      exact absurd (by rw [level, level, isFinite, isFinite, isInfinite, isInfinite, hm]) h

end Binary64

namespace Number

open Binary64 (compare_eq_compare)

/-! ### Places -/

/-- The place of a number among those of the doubles. -/
def place : Number → ℤ ×ₗ ℚ
  | int i => toLex (0, (i : ℚ))
  | float x => x.place
  | ratio q => toLex (0, q)

/-- The order of two numbers by value, and of the nearest doubles if they have none. -/
def compareFallback (m n : Number) : Ordering :=
  (m.compare? n).getD (m.toBinary64.totalCompare n.toBinary64)

theorem compareRat_eq (p q : ℚ) : compareRat p q = compare p q := by
  rw [compareRat, LinearOrder.compare_eq_compareOfLessAndEq, compareOfLessAndEq]

theorem compare_toLex_zero (p q : ℚ) :
    compare (toLex ((0 : ℤ), p)) (toLex ((0 : ℤ), q)) = compare p q := rfl

/-! ### Doubles and exact numbers -/

section Exact

variable {b : Number} {q : ℚ} {x : Binary64}

theorem place_of_toRat? (h : b.toRat? = some q) : b.place = toLex (0, q) := by
  cases b with
  | int i => cases h; rfl
  | float y => exact nomatch h
  | ratio r => cases h; rfl

/-- No exact number is rounded to a NaN. -/
theorem magnitude_toBinary64_le (h : b.toRat? = some q) :
    b.toBinary64.magnitude ≤ Binary64.infinityMagnitude := by
  cases b with
  | int i => exact Binary64.nearestMagnitude_le _ _
  | float y => exact nomatch h
  | ratio r => exact Binary64.nearestMagnitude_le _ _

theorem compare?_float_of_value? {p : ℚ} (h : b.toRat? = some q) (hx : x.value? = some p) :
    (float x).compare? b = some (compareRat p q) := by
  cases b with
  | float y => exact nomatch h
  | _ => simp only [compare?, hx, h]

theorem compare?_float_of_beyond (h : b.toRat? = some q) (hx : x.value? = none) :
    (float x).compare? b = compareNonFinite x := by
  cases b with
  | float y => exact nomatch h
  | _ => simp only [compare?, hx]

theorem compare?_exact_float (h : b.toRat? = some q) :
    b.compare? (float x) = ((float x).compare? b).map Ordering.swap := by
  have hswap : ∀ p, compareRat q p = (compareRat p q).swap := by
    intro p
    rw [compareRat_eq, compareRat_eq]
    exact Std.OrientedOrd.eq_swap
  cases b with
  | float y => exact nomatch h
  | _ => cases hx : x.value? <;> simp [compare?, hx, h, hswap]

theorem compare?_float_eq_none_iff (h : b.toRat? = some q) :
    (float x).compare? b = none ↔ x.isNaN = true := by
  cases hx : x.value? with
  | some p =>
      have hfin := (Binary64.value?_eq_some_iff.1 hx).1
      rw [Binary64.isFinite, decide_eq_true_eq] at hfin
      rw [compare?_float_of_value? h hx, Binary64.isNaN, decide_eq_true_eq]
      simp only [reduceCtorEq, false_iff]
      omega
  | none =>
      rw [compare?_float_of_beyond h hx, compareNonFinite]
      split
      · simp_all
      · split <;> simp_all

/-- A double compares with an exact number as their places do. -/
theorem compareFallback_float (h : b.toRat? = some q) :
    (float x).compareFallback b = compare x.place b.place := by
  rw [place_of_toRat? h, compareFallback]
  cases hx : x.value? with
  | some p =>
      rw [compare?_float_of_value? h hx, Option.getD_some, Binary64.place_of_value? hx,
        compareRat_eq, compare_toLex_zero]
  | none =>
      have hlevel : ¬ x.level = 0 := by
        rw [Binary64.level_eq_zero_iff, Binary64.value?_eq_none_iff.1 hx]
        exact Bool.false_ne_true
      rw [compare?_float_of_beyond h hx, Binary64.compare_place_of_level_lt q (by omega),
        compareNonFinite]
      -- a NaN is compared with the double nearest to the number, an infinity with the number
      by_cases hn : x.isNaN = true
      · have hm : b.toBinary64.magnitude < x.magnitude :=
          (magnitude_toBinary64_le h).trans_lt (of_decide_eq_true hn)
        rw [if_pos hn, Option.getD_none]
        exact Binary64.totalCompare_of_magnitude_lt hm
      · rw [if_neg hn, Binary64.outward]
        split <;> rfl

/-- An exact number compares with a double as their places do. -/
theorem compareFallback_exact (h : b.toRat? = some q) :
    b.compareFallback (float x) = compare b.place x.place := by
  have hswap : b.compareFallback (float x) = ((float x).compareFallback b).swap := by
    rw [compareFallback, compareFallback, compare?_exact_float h]
    cases (float x).compare? b with
    | some o => rfl
    | none => exact Std.OrientedOrd.eq_swap
  rw [hswap, compareFallback_float h]
  exact Std.OrientedOrd.eq_swap.symm

end Exact

/-- **A comparison fails** if one of the numbers is a NaN, and only then. -/
theorem compare?_eq_none_iff {m n : Number} :
    m.compare? n = none ↔ ¬ m.IsOrdered ∨ ¬ n.IsOrdered := by
  cases m with
  | float x =>
      cases n with
      | float y => simp [compare?, IsOrdered, Binary64.compare?_eq_none_iff]
      | _ => rw [compare?_float_eq_none_iff rfl]; simp [IsOrdered]
  | _ =>
      cases n with
      | float y =>
          rw [compare?_exact_float rfl, Option.map_eq_none_iff, compare?_float_eq_none_iff rfl]
          simp [IsOrdered]
      | _ => simp [compare?, IsOrdered]

/-- **Numbers compare as their places.** -/
theorem compareFallback_eq (m n : Number) : m.compareFallback n = compare m.place n.place := by
  cases m with
  | int i =>
      cases n with
      | int j =>
          have hcast : compare i j = compare (i : ℚ) (j : ℚ) :=
            compare_eq_compare Int.cast_lt.symm Int.cast_lt.symm
          exact hcast
      | float y => exact compareFallback_exact rfl
      | ratio q => exact compareRat_eq i q
  | float x =>
      cases n with
      | float y => exact x.compareFallback_eq y
      | _ => exact compareFallback_float rfl
  | ratio p =>
      cases n with
      | int j => exact compareRat_eq p j
      | float y => exact compareFallback_exact rfl
      | ratio q => exact compareRat_eq p q

end Number

namespace Term

/-! ### Numbers as terms -/

theorem kind_compare_eq_iff {j k : Kind} : j.compare k = .eq ↔ j = k := by
  rw [Kind.compare, compare_eq_iff_eq]
  constructor
  · intro h
    cases j <;> cases k <;> first | rfl | exact nomatch h
  · rintro rfl
    rfl

/-- The order of numbers among terms is that of their places, and then of their kinds. -/
theorem compareNumbers_eq (m n : Number) :
    compareNumbers m n =
      (Ord.compare m.place n.place).then ((num m).kind.compare (num n).kind) := by
  rw [← Number.compareFallback_eq]
  rfl

instance : Std.TransCmp compareNumbers := by
  have h : compareNumbers =
      compareLex (compareOn Number.place) (compareOn fun n => (num n).kind.rank) := by
    funext m n
    exact compareNumbers_eq m n
  rw [h]
  infer_instance

/-- Numbers are in one place of the standard order if they differ in the sign of a zero at most. -/
theorem compareNumbers_eq_iff {m n : Number} :
    compareNumbers m n = .eq ↔ m.unsignZero = n.unsignZero := by
  rw [compareNumbers_eq, Ordering.then_eq_eq, kind_compare_eq_iff, compare_eq_iff_eq]
  cases m <;> cases n <;> simp [kind, Number.place, Number.unsignZero, Binary64.place_eq_iff]

/-- Of ordered numbers, those in one place of the standard order are of one kind and value. -/
theorem compareNumbers_eq_iff_sameValue {m n : Number} (hm : m.IsOrdered) (hn : n.IsOrdered) :
    compareNumbers m n = .eq ↔ (num m).kind = (num n).kind ∧ m.sameValue n = true := by
  rw [compareNumbers, Ordering.then_eq_eq, kind_compare_eq_iff, and_comm, Number.sameValue,
    beq_iff_eq]
  refine and_congr_right fun _ => ?_
  have hsome : m.compare? n ≠ none := by
    rw [ne_eq, Number.compare?_eq_none_iff, not_or, not_not, not_not]
    exact ⟨hm, hn⟩
  obtain ⟨o, ho⟩ := Option.ne_none_iff_exists'.1 hsome
  rw [ho, Option.getD_some, Option.some_inj]

end Term

end LogicTerms
