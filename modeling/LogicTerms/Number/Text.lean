/-
**The text of a number.**

An integer is its decimal digits, a ratio its numerator and denominator around an `r`, and a double
has the text of `Binary64.text`, so each kind has texts of its own, `inf`, `-inf` and `nan` among
those of doubles.

Main definitions:

* `Number.text` — the text of a number.
-/

import LogicTerms.Binary64.Text
import LogicTerms.Number.Basic

set_option relaxedAutoImplicit false
set_option autoImplicit false

namespace LogicTerms.Number

/-- The text of a number. -/
def text : Number → List Char
  | int i => integerText i
  | float x => x.text
  | ratio q => integerText q.num ++ 'r' :: decimalDigits q.den

end LogicTerms.Number
