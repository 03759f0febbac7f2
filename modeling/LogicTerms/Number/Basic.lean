/-
**The three kinds of number.**

A number is an integer of any size, a double, or a ratio of integers in lowest terms.  The kind is
part of the number: the ratio `2/1`, the integer `2` and the double `2.0` have the same value and
are three different numbers.  The first two kinds are exact.

Main definitions:

* `Number` — a number;
* `Number.value?` — its value, if that is rational;
* `Number.toBinary64` — the nearest double;
* `Number.toInt?`, `Number.toRat?`, `Number.toChar?` — conversions that lose nothing;
* `Number.equal` — the same kind and the same value.
-/

import LogicTerms.Binary64.Arithmetic
import LogicTerms.Text.CodePoint

set_option relaxedAutoImplicit false
set_option autoImplicit false

namespace LogicTerms

/-- A number of one of three kinds. -/
inductive Number where
  /-- An integer. -/
  | int (value : Int)
  /-- A double, which may be infinite or a NaN. -/
  | float (value : Binary64)
  /-- A fraction in lowest terms; its denominator may be one. -/
  | ratio (value : Rat)
  deriving DecidableEq

namespace Number

/-! ### Kinds -/

/-- An integer by kind. -/
def isInt : Number → Bool
  | int _ => true
  | _ => false

/-- A double by kind. -/
def isFloat : Number → Bool
  | float _ => true
  | _ => false

/-- A ratio by kind. -/
def isRatio : Number → Bool
  | ratio _ => true
  | _ => false

/-! ### Values -/

/-- The value of any number but an infinity or a NaN. -/
def value? : Number → Option Rat
  | int i => some i
  | float x => x.value?
  | ratio q => some q

/-- A number whose value is zero, of whatever kind and sign. -/
def isZero : Number → Bool
  | int i => i == 0
  | float x => x.isZero
  | ratio q => q == 0

/-- The nearest double; exact numbers that are too large become infinite. -/
def toBinary64 : Number → Binary64
  | int i => .ofInt i
  | float x => x
  | ratio q => .ofRat q

/-- The integer that an exact number is. -/
def toInt? : Number → Option Int
  | int i => some i
  | float _ => none
  | ratio q => if q.den = 1 then some q.num else none

/-- The rational number that an exact number is. -/
def toRat? : Number → Option Rat
  | int i => some i
  | float _ => none
  | ratio q => some q

/-- The character whose code an integer is; ratios are never codes. -/
def toChar? : Number → Option Char
  | int (.ofNat n) => Text.ofCodePoint? n
  | _ => none

/-- The code of a character. -/
def ofChar (c : Char) : Number := int c.toNat

theorem toChar?_ofChar (c : Char) : (ofChar c).toChar? = some c :=
  Text.ofCodePoint?_toNat c

/-! ### Equality -/

/-- The same kind and the same value: a NaN equals nothing, and the two zeros are equal. -/
def equal : Number → Number → Bool
  | int i, int j => i == j
  | float x, float y => x.equal y
  | ratio p, ratio q => p == q
  | _, _ => false

/-- Not a NaN. -/
def IsOrdered : Number → Prop
  | float x => x.isNaN = false
  | _ => True

end Number

end LogicTerms
