/-
**Numbers as JSON.**

A number is an object whose only member is named for its kind.  An integer is its sign and the digits
of its magnitude in base `2 ^ 32`, least first; a ratio is its numerator and denominator, each as an
integer; a double is a JSON number, or `null` if it is not finite, which cannot be read back.

Main definitions:

* `Number.limbs`, `Number.ofLimbs` — the digits of a magnitude;
* `Number.toJson`, `Number.ofJson?` — a number.

Main results:

* `Number.ofLimbs_limbs` — the digits determine the magnitude.
-/

import LogicTerms.Binary64.Nearest
import LogicTerms.Binary64.Shortest
import LogicTerms.Json.Basic
import LogicTerms.Number.Basic

set_option relaxedAutoImplicit false
set_option autoImplicit false

namespace LogicTerms.Number

/-! ### Digits -/

/-- The digits of a number in base `2 ^ 32`, least first, without leading zeros. -/
def limbs (n : Nat) : List Nat :=
  if n = 0 then [] else n % 2 ^ 32 :: limbs (n / 2 ^ 32)
termination_by n
decreasing_by omega

/-- The number whose digits in base `2 ^ 32` these are, least first. -/
def ofLimbs (ds : List Nat) : Nat := ds.foldr (fun d n => d + 2 ^ 32 * n) 0

/-- The digits determine the number. -/
theorem ofLimbs_limbs (n : Nat) : ofLimbs (limbs n) = n := by
  induction n using Nat.strongRecOn with
  | _ n ih =>
    rw [limbs]
    split
    · rename_i h
      exact h.symm
    · change n % 2 ^ 32 + 2 ^ 32 * ofLimbs (limbs (n / 2 ^ 32)) = n
      rw [ih (n / 2 ^ 32) (by omega)]
      omega

/-! ### Integers -/

/-- An integer. -/
def integerToJson (i : Int) : Json :=
  .array [.integer (i < 0) i.sign.natAbs, .array ((limbs i.natAbs).map .ofNat)]

/-- The sign of an integer: minus one, zero or one. -/
def signOfJson? : Json → Option Int
  | .integer false 0 => some 0
  | .integer false 1 => some 1
  | .integer true 1 => some (-1)
  | _ => none

/-- An integer; the sign zero makes it zero whatever the digits. -/
def integerOfJson? (j : Json) : Option Int := do
  let (sign, digits) ← j.pair?
  let s ← signOfJson? sign
  let ds ← (← digits.items?).mapM (Json.below? (2 ^ 32))
  some (s * ofLimbs ds)

/-! ### Ratios and doubles -/

/-- A ratio. -/
def ratioToJson (q : Rat) : Json := .array [integerToJson q.num, integerToJson q.den]

/-- A ratio, whose denominator is not zero. -/
def ratioOfJson? (j : Json) : Option Rat := do
  let (numerator, denominator) ← j.pair?
  let n ← integerOfJson? numerator
  let d ← integerOfJson? denominator
  if d = 0 then none else some (Rat.divInt n d)

/-- A double. -/
def floatToJson (x : Binary64) : Json :=
  if x.isFinite then .decimal x.negative (Binary64.shortest x.magnitude) else .null

/-- The double nearest to a number; one that is too large is not read. -/
def floatOfJson? (j : Json) : Option Binary64 :=
  let x? : Option Binary64 :=
    match j with
    | .integer negative n => some (.ofDecimal negative ⟨n, 0⟩)
    | .decimal negative d => some (.ofDecimal negative d)
    | _ => none
  x?.bind fun x => if x.isFinite then some x else none

/-! ### Numbers -/

/-- A number. -/
def toJson : Number → Json
  | int i => .tagged "Integer" (integerToJson i)
  | float x => .tagged "Float" (floatToJson x)
  | ratio q => .tagged "Rational" (ratioToJson q)

/-- A number, by the name of its kind. -/
def ofJson? (j : Json) : Option Number := do
  match ← j.untag? with
  | ("Integer", j) => (integerOfJson? j).map int
  | ("Float", j) => (floatOfJson? j).map float
  | ("Rational", j) => (ratioOfJson? j).map ratio
  | _ => none

end LogicTerms.Number
