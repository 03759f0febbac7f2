/-
**Double-precision arithmetic and order.**

Each operation is computed on the exact values and rounded once, with the usual rules for signed
zeros, infinities and NaNs: a NaN operand is the result, an undefined form such as `inf - inf` or
`0 * inf` is a NaN, and a zero has the sign that its operands' signs give.

There are two orders.  The partial order `compare?` of values leaves NaNs out and puts the two
zeros in one place.  The total order `totalCompare` of all doubles puts negative NaNs first,
positive ones last, and `-0.0` before `+0.0`.

Main definitions:

* `Binary64.neg`, `Binary64.add`, `Binary64.sub`, `Binary64.mul`, `Binary64.div`;
* `Binary64.compare?`, `Binary64.equal` — comparison by value;
* `Binary64.totalCompare` — the total order.

Main results:

* `Binary64.equal_iff`, `Binary64.compare?_eq_none_iff`, `Binary64.neg_neg`.
-/

import LogicTerms.Binary64.Rounding

set_option relaxedAutoImplicit false
set_option autoImplicit false

namespace LogicTerms.Binary64

/-! ### Arithmetic -/

/-- The double with the other sign; also the sign of a NaN is turned. -/
def neg (x : Binary64) : Binary64 := { x with negative := !x.negative }

theorem neg_neg (x : Binary64) : x.neg.neg = x := by
  simp only [neg, Bool.not_not]

/-- The sum of two finite doubles; an exact zero is negative only if both operands are. -/
def addFinite (x y : Binary64) : Binary64 :=
  let s := x.signedUnits + y.signedUnits
  if s = 0 then zero (x.negative && y.negative) else ofFraction (s < 0) s.natAbs 1

/-- The rounded sum. -/
def add (x y : Binary64) : Binary64 :=
  if x.isNaN then x
  else if y.isNaN then y
  else if x.isInfinite then
    if y.isInfinite && x.negative != y.negative then nan false else x
  else if y.isInfinite then y
  else addFinite x y

/-- The rounded difference. -/
def sub (x y : Binary64) : Binary64 := x.add y.neg

/-- The rounded product. -/
def mul (x y : Binary64) : Binary64 :=
  let negative := x.negative != y.negative
  if x.isNaN then x
  else if y.isNaN then y
  else if x.isInfinite || y.isInfinite then
    if x.isZero || y.isZero then nan false else infinity negative
  else ofFraction negative (units x.magnitude * units y.magnitude) unitsPerOne

/-- The rounded quotient; division of a finite nonzero number by zero is infinite. -/
def div (x y : Binary64) : Binary64 :=
  let negative := x.negative != y.negative
  if x.isNaN then x
  else if y.isNaN then y
  else if x.isInfinite then
    if y.isInfinite then nan false else infinity negative
  else if y.isInfinite then zero negative
  else if y.isZero then
    if x.isZero then nan false else infinity negative
  else ofFraction negative (units x.magnitude * unitsPerOne) (units y.magnitude)

/-! ### Order -/

/-- The place of a double among the values, the same for both zeros. -/
def rank (x : Binary64) : Int :=
  if x.negative then -(x.magnitude : Int) else (x.magnitude : Int)

/-- Comparison by value; nothing for a NaN. -/
def compare? (x y : Binary64) : Option Ordering :=
  if x.isNaN || y.isNaN then none else some (compare x.rank y.rank)

/-- Equality by value: a NaN equals nothing, and the two zeros are equal. -/
def equal (x y : Binary64) : Bool :=
  !x.isNaN && !y.isNaN && x.rank == y.rank

/-- The place of a double in the total order, different for different doubles. -/
def totalRank (x : Binary64) : Int :=
  if x.negative then -(x.magnitude : Int) - 1 else (x.magnitude : Int)

/-- The total order of all doubles. -/
def totalCompare (x y : Binary64) : Ordering := compare x.totalRank y.totalRank

/-- Exactly the NaNs are unordered. -/
theorem compare?_eq_none_iff (x y : Binary64) :
    x.compare? y = none ↔ x.isNaN = true ∨ y.isNaN = true := by
  simp only [compare?, Bool.or_eq_true]
  split <;> simp_all

/-- Equality by value is a comparison that ends in `eq`. -/
theorem equal_iff (x y : Binary64) : x.equal y = true ↔ x.compare? y = some .eq := by
  cases hx : x.isNaN <;> cases hy : y.isNaN <;>
    simp only [equal, compare?, hx, hy, Bool.not_true, Bool.not_false, Bool.true_and,
      Bool.false_and, Bool.or_true, Bool.or_false, if_true, if_false,
      Bool.false_eq_true, reduceCtorEq, beq_iff_eq, Option.some.injEq, Std.compare_eq_iff_eq]

/-- Different doubles have different places in the total order. -/
theorem totalRank_inj {x y : Binary64} : x.totalRank = y.totalRank ↔ x = y := by
  obtain ⟨s, m, h⟩ := x
  obtain ⟨t, n, k⟩ := y
  cases s <;> cases t <;>
    simp only [totalRank, mk.injEq, if_true, if_false, Bool.false_eq_true, Bool.true_eq_false,
      true_and, false_and, iff_false] <;> omega

end LogicTerms.Binary64
