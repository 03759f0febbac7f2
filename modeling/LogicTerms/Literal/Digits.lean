/-
**Digits of a literal.**

A digit is a decimal digit or a letter from `a` to `f` in either case, and belongs to a radix if its
value is below it.  A run of digits denotes the number that its digits spell in the radix, leading
zeros counting for nothing.

Main definitions:

* `Literal.digitValue?`, `Literal.isDigit` — a character as a digit;
* `Literal.ofDigits`, `Literal.natural?` — a run of digits as a number;
* `Literal.splitSign` — a text without its optional sign.

Main results:

* `Literal.ofDigits_append_singleton` — a digit at the end multiplies by the radix and adds.
-/

set_option relaxedAutoImplicit false
set_option autoImplicit false

namespace LogicTerms.Literal

/-- The value of a digit, in either case. -/
def digitValue? (c : Char) : Option Nat :=
  let n := c.toNat
  if 48 ≤ n ∧ n ≤ 57 then some (n - 48)
  else if 97 ≤ n ∧ n ≤ 102 then some (n - 87)
  else if 65 ≤ n ∧ n ≤ 70 then some (n - 55)
  else none

/-- A digit of the radix. -/
def isDigit (radix : Nat) (c : Char) : Bool := (digitValue? c).any (· < radix)

/-- The number that digits spell. -/
def ofDigits (radix : Nat) (cs : List Char) : Nat :=
  cs.foldl (fun n c => n * radix + (digitValue? c).getD 0) 0

@[simp] theorem ofDigits_nil (radix : Nat) : ofDigits radix [] = 0 := rfl

/-- A digit at the end multiplies by the radix and adds its value. -/
theorem ofDigits_append_singleton (radix : Nat) (cs : List Char) (c : Char) :
    ofDigits radix (cs ++ [c]) = ofDigits radix cs * radix + (digitValue? c).getD 0 := by
  simp only [ofDigits, List.foldl_append, List.foldl_cons, List.foldl_nil]

/-- The number of a text of decimal digits; none if it is empty or holds anything else. -/
def natural? (cs : List Char) : Option Nat :=
  if !cs.isEmpty && cs.all (isDigit 10) then some (ofDigits 10 cs) else none

/-- Whether a text starts with a minus sign, and the text after its optional sign. -/
def splitSign : List Char → Bool × List Char
  | '-' :: cs => (true, cs)
  | '+' :: cs => (false, cs)
  | cs => (false, cs)

end LogicTerms.Literal
