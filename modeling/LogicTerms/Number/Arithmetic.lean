/-
**Arithmetic across the kinds of number.**

Arithmetic on integers and ratios is exact, and its result is an integer whenever its value is one.
A double on either side makes the operation a double operation on the nearest doubles of both.
The only operation without a result is the exact division by zero.

Main definitions:

* `Number.add`, `Number.sub`, `Number.mul`, `Number.div` — the four operations;
* `Number.neg` — the number of the same kind with the other sign;
* `Number.compare?`, `Number.sameValue` — comparison by value, across kinds.
-/

import LogicTerms.Number.Basic

set_option relaxedAutoImplicit false
set_option autoImplicit false

namespace LogicTerms.Number

/-! ### The four operations -/

/-- An exact result: an integer if the value is one, otherwise a ratio. -/
def ofRat (q : Rat) : Number := if q.den = 1 then int q.num else ratio q

/-- An operation on doubles, if either operand is one, and on exact values otherwise. -/
def dispatch (onFloats : Binary64 → Binary64 → Binary64)
    (onExact : Rat → Rat → Option Number) (a b : Number) : Option Number :=
  match a.toRat?, b.toRat? with
  | some p, some q => onExact p q
  | _, _ => some (float (onFloats a.toBinary64 b.toBinary64))

/-- The sum. -/
def add : Number → Number → Option Number
  | int i, int j => some (int (i + j))
  | a, b => dispatch Binary64.add (fun p q => some (ofRat (p + q))) a b

/-- The difference. -/
def sub : Number → Number → Option Number
  | int i, int j => some (int (i - j))
  | a, b => dispatch Binary64.sub (fun p q => some (ofRat (p - q))) a b

/-- The product. -/
def mul : Number → Number → Option Number
  | int i, int j => some (int (i * j))
  | a, b => dispatch Binary64.mul (fun p q => some (ofRat (p * q))) a b

/-- The quotient; none for an exact division by zero. -/
def div (a b : Number) : Option Number :=
  dispatch Binary64.div (fun p q => if q = 0 then none else some (ofRat (p / q))) a b

/-- The number of the same kind with the other sign. -/
def neg : Number → Number
  | int i => int (-i)
  | float x => float x.neg
  | ratio q => ratio (-q)

/-! ### Comparison by value -/

/-- The order of two rational numbers. -/
def compareRat (p q : Rat) : Ordering := if p < q then .lt else if p = q then .eq else .gt

/-- The order of a double against exact values if it is not finite: an infinity is beyond all of
them and a NaN unordered. -/
def compareNonFinite (x : Binary64) : Option Ordering :=
  if x.isNaN then none else if x.negative then some .lt else some .gt

/-- Comparison by value, without rounding; nothing if a NaN is compared. -/
def compare? : Number → Number → Option Ordering
  | int i, int j => some (compare i j)
  | float x, float y => x.compare? y
  | float x, b =>
    match x.value?, b.toRat? with
    | some p, some q => some (compareRat p q)
    | _, _ => compareNonFinite x
  | a, float y =>
    match a.toRat?, y.value? with
    | some p, some q => some (compareRat p q)
    | _, _ => (compareNonFinite y).map Ordering.swap
  | int i, ratio q => some (compareRat i q)
  | ratio p, int j => some (compareRat p j)
  | ratio p, ratio q => some (compareRat p q)

/-- Equality by value, across kinds. -/
def sameValue (a b : Number) : Bool := a.compare? b == some .eq

end LogicTerms.Number
