/-
**Conversion to doubles.**

A number becomes a double in one of three ways, by its kind.  An integer and a ratio are handed to a
conversion of exact numbers, which may give up; a double is taken as it is.  Where the conversion
gives up on an integer, the integer becomes the infinity of its sign, and where it gives up on a
ratio, the ratio becomes the quotient of the doubles of its numerator and its denominator.

The conversion is a parameter.  The one to the nearest double, `Number.toBinary64`, never gives up.

Main definitions:

* `Conversion` — a conversion of exact numbers;
* `Number.convert` — the double of a number under a conversion;
* `Conversion.nearest` — the conversion to the nearest double.

Main results:

* `Number.convert_nearest` — that conversion is `Number.toBinary64`.
-/

import LogicTerms.Number.Basic

set_option relaxedAutoImplicit false
set_option autoImplicit false

namespace LogicTerms

/-- A conversion of exact numbers to doubles. -/
structure Conversion where
  /-- The double of an integer, unless the conversion gives up. -/
  ofInt? : Int → Option Binary64
  /-- The double of a fraction, unless the conversion gives up. -/
  ofRat? : Rat → Option Binary64

namespace Conversion

/-- The double of an integer; an infinity where the conversion gives up. -/
def int (c : Conversion) (i : Int) : Binary64 := (c.ofInt? i).getD (.infinity (i < 0))

/-- The double of a ratio; a quotient of doubles where the conversion gives up. -/
def ratio (c : Conversion) (q : Rat) : Binary64 :=
  (c.ofRat? q).getD ((c.int q.num).div (c.int q.den))

/-- The conversion to the nearest double, which is infinite for what is too large. -/
def nearest : Conversion := ⟨fun i => some (.ofInt i), fun q => some (.ofRat q)⟩

end Conversion

namespace Number

/-- The double of a number under a conversion. -/
def convert (c : Conversion) : Number → Binary64
  | int i => c.int i
  | float x => x
  | ratio q => c.ratio q

/-- The conversion to the nearest double gives the nearest double of every number. -/
theorem convert_nearest (a : Number) : a.convert .nearest = a.toBinary64 := by
  cases a <;> rfl

end Number

end LogicTerms
