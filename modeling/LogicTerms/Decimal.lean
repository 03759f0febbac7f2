/-
**Decimal numbers and their notations.**

A decimal is a whole coefficient times a power of ten.  It is written positionally where its point
falls near its digits, and otherwise scientifically, with one digit before the point; a `Layout`
says how far the point may fall.  A positional text always has a digit on each side of the point,
and a scientific one has neither a point without digits after it nor a plus sign.

Main definitions:

* `Decimal` — a coefficient and an exponent;
* `Decimal.value` — the rational number it denotes;
* `Decimal.positional`, `Decimal.scientific` — the two notations;
* `Decimal.Layout`, `Decimal.write` — the choice between them.

Main results:

* `Decimal.digits_ne_nil`, `Decimal.isDigit_of_mem_digits` — the digits are digits.
-/

set_option relaxedAutoImplicit false
set_option autoImplicit false

-- powers of natural numbers are the same ones, whatever else is imported
attribute [default_instance 20000, instance (10000)] instPowNat

namespace LogicTerms

/-! ### Whole numbers -/

/-- The decimal digits of a whole number, most significant first. -/
def decimalDigits (n : Nat) : List Char := n.repr.toList

theorem decimalDigits_eq (n : Nat) : decimalDigits n = Nat.toDigits 10 n := by
  rw [decimalDigits, Nat.repr_eq_ofList_toDigits, String.toList_ofList]

/-- The decimal text of an integer, with a minus sign if it is negative. -/
def integerText (i : Int) : List Char :=
  if i < 0 then '-' :: decimalDigits i.natAbs else decimalDigits i.natAbs

/-! ### Decimals -/

/-- The number `coefficient * 10 ^ exponent`. -/
structure Decimal where
  /-- The digits, read as a whole number. -/
  coefficient : Nat
  /-- The power of ten that scales them. -/
  exponent : Int
  deriving DecidableEq

namespace Decimal

/-- The rational number that a decimal denotes. -/
def value (d : Decimal) : Rat :=
  if 0 ≤ d.exponent then (d.coefficient * 10 ^ d.exponent.toNat : Nat)
  else mkRat d.coefficient (10 ^ (-d.exponent).toNat)

/-- The digits of the coefficient. -/
def digits (d : Decimal) : List Char := decimalDigits d.coefficient

theorem digits_ne_nil (d : Decimal) : d.digits ≠ [] := by
  rw [digits, decimalDigits_eq]
  exact Nat.toDigits_ne_nil

theorem isDigit_of_mem_digits {d : Decimal} {c : Char} (h : c ∈ d.digits) : c.isDigit = true := by
  rw [digits, decimalDigits_eq] at h
  exact Nat.isDigit_of_mem_toDigits (by decide) (Nat.le_refl 10) h

/-- Where the point falls, counted from the left end of the digits: the decimal is zero point its
digits, times ten to this power. -/
def point (d : Decimal) : Int := d.digits.length + d.exponent

/-- All digits around a point, with zeros where the digits do not reach it. -/
def positional (d : Decimal) : List Char :=
  let ds := d.digits
  if d.point ≤ 0 then
    ['0', '.'] ++ List.replicate (-d.point).toNat '0' ++ ds
  else if 0 ≤ d.exponent then
    ds ++ List.replicate d.exponent.toNat '0' ++ ['.', '0']
  else
    ds.take d.point.toNat ++ '.' :: ds.drop d.point.toNat

/-- The first digit, the others behind a point, and the power of ten of the first. -/
def scientific (d : Decimal) : List Char :=
  let ds := d.digits
  let rest := ds.drop 1
  ds.take 1 ++ (if rest.isEmpty then [] else '.' :: rest) ++ 'e' :: integerText (d.point - 1)

/-- The range of points that are written positionally. -/
structure Layout where
  /-- The least such point. -/
  lowest : Int
  /-- The greatest such point. -/
  highest : Int
  deriving DecidableEq

/-- The text of a decimal in a layout. -/
def write (layout : Layout) (d : Decimal) : List Char :=
  if layout.lowest ≤ d.point ∧ d.point ≤ layout.highest then d.positional else d.scientific

end Decimal

end LogicTerms
