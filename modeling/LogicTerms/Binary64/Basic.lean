/-
**Double-precision numbers as signed magnitudes.**

A double is held as its sign bit and its other 63 bits read as one number, its *magnitude*.  The
magnitudes of the non-negative doubles are in the order of their values, the successor of a double
has the next magnitude, and the infinities and the NaNs are the magnitudes at and above
`infinityMagnitude`; so order, rounding and neighbours are arithmetic on `Nat`.

The value of a finite double is a whole number of *units* of `2 ^ (-1074)`, the least positive
double; `units` reads that number off a magnitude.

Main definitions:

* `Binary64` — a double;
* `Binary64.ofBits`, `Binary64.toBits` — the 64-bit interchange form;
* `Binary64.isNaN`, `Binary64.isInfinite`, `Binary64.isFinite` — the three classes;
* `Binary64.units`, `Binary64.signedUnits`, `Binary64.value?` — the value of a finite double.

Main results:

* `Binary64.toBits_ofBits`, `Binary64.ofBits_toBits` — the interchange form determines the double;
* `Binary64.isFinite_or` — every double is finite, infinite or a NaN.
-/

set_option relaxedAutoImplicit false
set_option autoImplicit false

-- powers of natural numbers are the same ones, whatever else is imported
attribute [default_instance 20000, instance (10000)] instPowNat

namespace LogicTerms

/-- A double-precision number: its sign bit, and its exponent and fraction fields read as one
number. -/
structure Binary64 where
  /-- The sign bit; set also for `-0.0` and for a negative NaN. -/
  negative : Bool
  /-- The 63 bits below the sign. -/
  magnitude : Nat
  /-- There are 63 of them. -/
  magnitude_lt : magnitude < 2 ^ 63 := by omega
  deriving DecidableEq

namespace Binary64

/-! ### The interchange form -/

/-- The double with the given 64 bits; higher bits are dropped. -/
def ofBits (bits : Nat) : Binary64 where
  negative := bits / 2 ^ 63 % 2 == 1
  magnitude := bits % 2 ^ 63
  magnitude_lt := Nat.mod_lt _ (by omega)

/-- The 64 bits of a double. -/
def toBits (x : Binary64) : Nat :=
  (if x.negative then 2 ^ 63 else 0) + x.magnitude

theorem toBits_lt (x : Binary64) : x.toBits < 2 ^ 64 := by
  have := x.magnitude_lt
  unfold toBits
  split <;> omega

theorem toBits_ofBits (bits : Nat) : (ofBits bits).toBits = bits % 2 ^ 64 := by
  simp only [toBits, ofBits, beq_iff_eq]
  split <;> omega

theorem ofBits_toBits (x : Binary64) : ofBits x.toBits = x := by
  obtain ⟨s, m, h⟩ := x
  cases s <;> simp only [toBits, ofBits, mk.injEq] <;>
    refine ⟨?_, by simp only [if_true, Bool.false_eq_true, if_false]; omega⟩
  · simp only [Bool.false_eq_true, if_false, beq_eq_false_iff_ne]
    omega
  · simp only [if_true, beq_iff_eq]
    omega

/-! ### The classes -/

/-- The magnitude of the infinities: exponent field full, fraction field empty. -/
def infinityMagnitude : Nat := 2047 * 2 ^ 52

/-- A magnitude above infinity is not a number. -/
def isNaN (x : Binary64) : Bool := infinityMagnitude < x.magnitude

/-- The magnitude of an infinity. -/
def isInfinite (x : Binary64) : Bool := x.magnitude == infinityMagnitude

/-- A magnitude below infinity has a rational value. -/
def isFinite (x : Binary64) : Bool := x.magnitude < infinityMagnitude

/-- Either zero. -/
def isZero (x : Binary64) : Bool := x.magnitude == 0

/-- Zero of the given sign. -/
def zero (negative : Bool) : Binary64 := { negative, magnitude := 0 }

/-- Infinity of the given sign. -/
def infinity (negative : Bool) : Binary64 :=
  { negative, magnitude := infinityMagnitude, magnitude_lt := by decide }

/-- The quiet NaN of the given sign without a payload. -/
def nan (negative : Bool) : Binary64 :=
  { negative, magnitude := infinityMagnitude + 2 ^ 51, magnitude_lt := by decide }

/-- Every double is finite, infinite or a NaN. -/
theorem isFinite_or (x : Binary64) :
    x.isFinite = true ∨ x.isInfinite = true ∨ x.isNaN = true := by
  simp only [isFinite, isInfinite, isNaN, decide_eq_true_eq, beq_iff_eq]
  omega

/-! ### The value of a finite double -/

/-- The value at a magnitude in units of `2 ^ (-1074)`: the fraction itself when the exponent field
is empty, otherwise the fraction with its hidden bit, shifted by the exponent. -/
def units (magnitude : Nat) : Nat :=
  if magnitude < 2 ^ 52 then magnitude
  else (2 ^ 52 + magnitude % 2 ^ 52) * 2 ^ (magnitude / 2 ^ 52 - 1)

/-- The number of units in one. -/
def unitsPerOne : Nat := 2 ^ 1074

/-- The value of a finite double in units, with its sign. -/
def signedUnits (x : Binary64) : Int :=
  if x.negative then -(units x.magnitude : Int) else (units x.magnitude : Int)

/-- The exact value of a finite double. -/
def value? (x : Binary64) : Option Rat :=
  if x.isFinite then some (mkRat x.signedUnits unitsPerOne) else none

end Binary64

end LogicTerms
