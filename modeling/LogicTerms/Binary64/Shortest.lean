/-
**The shortest decimal that reads back as a given double.**

The reals that round to a finite double are those between the midpoints to its two neighbours,
the midpoints included if the magnitude is even.  The decimals with a given exponent form a grid;
the search goes from coarse grids to fine ones and stops at the first grid that has a point in
that interval.  If one grid point has, one of the two next to the double itself has, so only those
are tried; of two the nearer is taken, and the greater if both are equally near.  The grid of
`2 ^ (-1074)`'s own digits holds the double itself, so the search ends there at the latest.

All distances are in half units, so that midpoints are whole numbers.

Main definitions:

* `Binary64.RoundsTo` — a decimal lies in the interval of a magnitude;
* `Binary64.gridPoint?` — the point of a grid that stands for a magnitude;
* `Binary64.shortest` — the decimal of a magnitude.

Main results:

* `Binary64.roundsTo_of_gridPoint?` — a grid point found lies in the interval.
-/

import LogicTerms.Binary64.Basic
import LogicTerms.Decimal

set_option relaxedAutoImplicit false
set_option autoImplicit false

namespace LogicTerms.Binary64

/-! ### The interval of a magnitude -/

/-- The midpoint below a magnitude, in half units. -/
def lowerMidpoint (magnitude : Nat) : Nat := units (magnitude - 1) + units magnitude

/-- The midpoint above a magnitude, in half units. -/
def upperMidpoint (magnitude : Nat) : Nat := units magnitude + units (magnitude + 1)

/-- The fraction `n / d` of half units rounds to the magnitude. -/
def RoundsTo (magnitude n d : Nat) : Prop :=
  if magnitude % 2 = 0 then
    lowerMidpoint magnitude * d ≤ n ∧ n ≤ upperMidpoint magnitude * d
  else
    lowerMidpoint magnitude * d < n ∧ n < upperMidpoint magnitude * d

instance (magnitude n d : Nat) : Decidable (RoundsTo magnitude n d) := by
  unfold RoundsTo
  infer_instance

/-! ### Decimal grids -/

/-- The step of the grid of exponent `k`, as a fraction of half units. -/
def gridStep (k : Int) : Nat × Nat :=
  if 0 ≤ k then (10 ^ k.toNat * (2 * unitsPerOne), 1) else (2 * unitsPerOne, 10 ^ (-k).toNat)

/-- The number of steps of the grid of exponent `k` that stands for a magnitude, if one does. -/
def gridPoint? (magnitude : Nat) (k : Int) : Option Nat :=
  let (s, d) := gridStep k
  let n := 2 * units magnitude * d
  let c := n / s
  let below := RoundsTo magnitude (c * s) d
  let above := RoundsTo magnitude ((c + 1) * s) d
  if below ∧ (2 * (n % s) < s ∨ ¬ above) then some c
  else if above then some (c + 1)
  else none

/-- A grid point that was found lies in the interval. -/
theorem roundsTo_of_gridPoint? {magnitude : Nat} {k : Int} {c : Nat}
    (h : gridPoint? magnitude k = some c) :
    RoundsTo magnitude (c * (gridStep k).1) (gridStep k).2 := by
  simp only [gridPoint?] at h
  split at h
  · rename_i hb
    exact Option.some.inj h ▸ hb.1
  · split at h
    · rename_i ha
      exact Option.some.inj h ▸ ha
    · exact nomatch h

/-! ### The search -/

/-- The decimal on the first grid from exponent `steps - 1074` downward. -/
def shortestFrom (magnitude : Nat) : Nat → Decimal
  | 0 => ⟨units magnitude * 5 ^ 1074, -1074⟩
  | steps + 1 =>
    let k : Int := steps - 1073
    match gridPoint? magnitude k with
    | some c => ⟨c, k⟩
    | none => shortestFrom magnitude steps

/-- The decimal with the fewest digits that reads back as a magnitude; the search starts at the
grid whose step is greater than the double. -/
def shortest (magnitude : Nat) : Decimal :=
  if magnitude = 0 then ⟨0, 0⟩
  else shortestFrom magnitude (1074 + (decimalDigits (units magnitude / unitsPerOne)).length)

end LogicTerms.Binary64
