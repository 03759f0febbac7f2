/-
**Literals of fractions and doubles.**

Where a literal is that of a fraction, it is read exactly.  What is left are digits with a point at
either end, exponents beyond the limit of exact reading, digits alone, and the names of infinity and
of the NaN in any case, each behind an optional sign; these denote the nearest double.

Main definitions:

* `Literal.special?` — the names of infinity and of the NaN;
* `Literal.readBinary64?` — the nearest double that a literal denotes;
* `Literal.readFloat` — a fraction if it is one, otherwise a double.
-/

import LogicTerms.Binary64.Nearest
import LogicTerms.Error
import LogicTerms.Literal.Fraction
import LogicTerms.Number.Basic

set_option relaxedAutoImplicit false
set_option autoImplicit false

namespace LogicTerms.Literal

/-- A letter in lower case; only ASCII letters have two cases here. -/
def lower (c : Char) : Char :=
  if 65 ≤ c.toNat ∧ c.toNat ≤ 90 then Char.ofNat (c.toNat + 32) else c

/-- The double of the given sign that has a name, in whatever case. -/
def special? (negative : Bool) (cs : List Char) : Option Binary64 :=
  let name := cs.map lower
  if name = ['i', 'n', 'f'] ∨ name = ['i', 'n', 'f', 'i', 'n', 'i', 't', 'y'] then
    some (.infinity negative)
  else if name = ['n', 'a', 'n'] then some (.nan negative)
  else none

/-- The power of ten behind an exponent mark, of any size; zero without a mark. -/
def anyExponent? : Option (List Char) → Option Int
  | none => some 0
  | some cs =>
    let (negative, digits) := splitSign cs
    (natural? digits).map fun n => if negative then -(n : Int) else (n : Int)

/-- An unsigned decimal with digits on at least one side of its point. -/
def looseDecimal? (cs : List Char) : Option Decimal := do
  let (mantissa, rest) := splitAt (fun c => c == 'e' || c == 'E') cs
  let exponent ← anyExponent? rest
  let (whole, fraction) := splitAt (· == '.') mantissa
  let fraction := fraction.getD []
  let n ← natural? (whole ++ fraction)
  some ⟨n, exponent - fraction.length⟩

/-- The double nearest to what a literal denotes. -/
def readBinary64? (token : String) : Option Binary64 :=
  let (negative, body) := splitSign token.toList
  match special? negative body with
  | some x => some x
  | none => (looseDecimal? body).map (Binary64.ofDecimal negative)

/-- The number that a literal with a fractional part denotes. -/
def readFloat (token : String) : Except LiteralError Number :=
  match readFraction? token with
  | some q => .ok (.ratio q)
  | none =>
    match readBinary64? token with
    | some x => .ok (.float x)
    | none => .error (.invalidFloat token)

end LogicTerms.Literal
