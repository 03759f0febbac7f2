/-
**The double nearest to a decimal.**

A decimal is rounded through its exact value.  One that is certainly too large or too small for
that to matter is not computed: its exponent may be of any size.

Main definitions:

* `Binary64.ofDecimal` — the nearest double of a decimal, with a sign.
-/

import LogicTerms.Binary64.Rounding
import LogicTerms.Decimal

set_option relaxedAutoImplicit false
set_option autoImplicit false

namespace LogicTerms.Binary64

/-- The double of the given sign nearest to a decimal.  From `10 ^ 309` on it is infinite, and below
`10 ^ (-324)`, which is less than half the least positive double, it is zero. -/
def ofDecimal (negative : Bool) (d : Decimal) : Binary64 :=
  if d.coefficient = 0 then zero negative
  else if 310 ≤ d.point then infinity negative
  else if d.point ≤ -324 then zero negative
  else if 0 ≤ d.exponent then
    ofFraction negative (d.coefficient * 10 ^ d.exponent.toNat * unitsPerOne) 1
  else ofFraction negative (d.coefficient * unitsPerOne) (10 ^ (-d.exponent).toNat)

end LogicTerms.Binary64
