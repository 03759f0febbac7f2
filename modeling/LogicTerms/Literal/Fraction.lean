/-
**Literals of exact fractions.**

A fraction is written as two runs of digits around `/` or `r`, the second not zero, or as a decimal
with digits on both sides of its point, an exponent behind `e`, or both, in each case behind an
optional sign.  It denotes exactly the number that it spells, as a ratio even where that is whole.
Digits alone are not a fraction.

A decimal is read only if, with its point moved behind the last digit, its exponent is within
`exponentLimit`; beyond it the exact number would be needlessly long.

Main definitions:

* `Literal.decimal?` — a decimal with a point or an exponent;
* `Literal.quotient?` — two numbers around a division mark;
* `Literal.readFraction?` — a fraction of either notation.
-/

import LogicTerms.Decimal
import LogicTerms.Literal.Digits

set_option relaxedAutoImplicit false
set_option autoImplicit false

namespace LogicTerms.Literal

/-- The greatest exponent, of either sign, that is read exactly. -/
def exponentLimit : Int := 10000

/-- The greatest magnitude of an exponent as it is written. -/
def writtenExponentLimit : Nat := 2 ^ 63 - 1

/-- Splits a text at the first character of a kind, and drops that character; the second part is
missing if there is none. -/
def splitAt (p : Char → Bool) (cs : List Char) : List Char × Option (List Char) :=
  (cs.takeWhile (!p ·), (cs.dropWhile (!p ·)).tail?)

/-- An exponent: an optional sign and digits. -/
def exponent? (cs : List Char) : Option Int :=
  let (negative, digits) := splitSign cs
  match natural? digits with
  | some n =>
    if n ≤ writtenExponentLimit then some (if negative then -(n : Int) else (n : Int)) else none
  | none => none

/-- The digits before and after the point; none if there is no point and none is allowed, or if
the point has no digits behind it. -/
def pointParts? (pointNeeded : Bool) (cs : List Char) : Option (List Char × List Char) :=
  match splitAt (· == '.') cs with
  | (whole, some fraction) => if fraction.isEmpty then none else some (whole, fraction)
  | (whole, none) => if pointNeeded then none else some (whole, [])

/-- The decimal that digits with a point between them and a power of ten denote. -/
def scaled? (whole fraction : List Char) (exponent : Int) : Option Decimal :=
  if whole.isEmpty then none
  else
    let scale := exponent - fraction.length
    match natural? (whole ++ fraction) with
    | some n => if scale.natAbs ≤ exponentLimit.natAbs then some ⟨n, scale⟩ else none
    | none => none

/-- An unsigned decimal with a point, an exponent or both. -/
def decimal? (cs : List Char) : Option Decimal := do
  match splitAt (fun c => c == 'e' || c == 'E') cs with
  | (mantissa, some rest) =>
    let exponent ← exponent? rest
    let (whole, fraction) ← pointParts? false mantissa
    scaled? whole fraction exponent
  | (mantissa, none) =>
    let (whole, fraction) ← pointParts? true mantissa
    scaled? whole fraction 0

/-- The quotient of two numbers; none if the second is zero. -/
def quotient? (numerator denominator : List Char) : Option Rat := do
  let n ← natural? numerator
  let d ← natural? denominator
  if d = 0 then none else some (mkRat n d)

/-- The exact number that the literal of a fraction denotes. -/
def readFraction? (token : String) : Option Rat :=
  let (negative, body) := splitSign token.toList
  let magnitude? : Option Rat :=
    match splitAt (fun c => c == '/' || c == 'r') body with
    | (numerator, some denominator) => quotient? numerator denominator
    | (_, none) => (decimal? body).map Decimal.value
  magnitude?.map fun q => if negative then -q else q

end LogicTerms.Literal
