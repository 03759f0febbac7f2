/-
**Literals of exact fractions, read with words.**

Exponents of decimals are words of 64 bits, and the power of ten that a decimal is scaled by is
raised to a word of 32 bits.  An operation on words gives what it should only if that fits into its
result.  Some operations say so if it does not, and then the literal is not read exactly; the others
go wrong.

Here literals are read with words, and each step that would go wrong is a fault: a word other than
it should be, a power of ten that is too large, or a ratio over zero.

Main definitions:

* `Literal.Fault`, `Literal.Checked` — what can go wrong, and computations in which it can;
* `Literal.Word.ofNat?`, `Literal.Word.sub?` — the operations that say so;
* `Literal.Word.neg`, `Literal.Word.abs`, `Literal.Word.narrow` — the operations that do not;
* `Literal.Word.scaling` — the words by which a decimal is scaled;
* `Literal.Word.readFraction` — the literal of a fraction.
-/

import LogicTerms.Literal.Fraction

set_option relaxedAutoImplicit false
set_option autoImplicit false

namespace LogicTerms.Literal

/-! ### Faults -/

/-- What can go wrong. -/
inductive Fault where
  /-- The result of an operation does not fit into a word. -/
  | overflow
  /-- A word does not fit into a smaller one. -/
  | truncation
  /-- A power of ten takes too much room. -/
  | size
  /-- The denominator of a ratio is zero. -/
  | zeroDenominator
  deriving DecidableEq

/-- A computation that may have no result, and that can go wrong. -/
abbrev Checked := ExceptT Fault Option

/-- Has no result. -/
def Checked.refuse {α : Type} : Checked α := liftM (none : Option α)

/-- The result of a step that goes wrong without one. -/
def Checked.orFault {α : Type} (fault : Fault) : Option α → Checked α
  | some a => pure a
  | none => throw fault

namespace Word

/-! ### Operations on words -/

/-- The word that the machine has computed, if it is the number that it should be. -/
def exactly? {α β : Type} [DecidableEq β] (number : α → β) (n : β) (computed : α) : Option α :=
  if number computed = n then some computed else none

/-- A whole number as a signed word. -/
def ofNat? (n : Nat) : Option Int64 := exactly? Int64.toInt n (.ofNat n)

/-- The difference of signed words. -/
def sub? (x y : Int64) : Option Int64 := exactly? Int64.toInt (x.toInt - y.toInt) (x - y)

/-- The opposite of a signed word. -/
def neg (x : Int64) : Checked Int64 :=
  .orFault .overflow (exactly? Int64.toInt (-x.toInt) (-x))

/-- The absolute value of a signed word. -/
def abs (x : Int64) : Checked UInt64 :=
  .orFault .overflow (exactly? UInt64.toNat x.toInt.natAbs x.abs.toUInt64)

/-- A word in half of its room. -/
def narrow (x : UInt64) : Checked UInt32 :=
  .orFault .truncation (exactly? UInt32.toNat x.toNat x.toUInt32)

/-- The greatest exponent, of either sign, that is read exactly. -/
def scaleLimit : Int64 := 10000

/-- A power of ten. -/
def powerOfTen (p : UInt32) : Checked Nat :=
  if p.toNat ≤ scaleLimit.toInt.natAbs then pure (10 ^ p.toNat) else throw .size

/-- The ratio of whole numbers. -/
def ratio (n d : Nat) : Checked Rat :=
  if d = 0 then throw .zeroDenominator else pure (mkRat n d)

/-! ### Decimals -/

/-- An exponent: an optional sign and digits. -/
def exponent (cs : List Char) : Checked Int64 := do
  let (negative, digits) := splitSign cs
  let n ← natural? digits
  let x ← ofNat? n
  if negative then neg x else pure x

/-- The words by which a decimal is scaled. -/
structure Scaling where
  /-- The number of bytes behind the point. -/
  places : Int64
  /-- The exponent with the point behind the last digit. -/
  scale : Int64
  /-- Its absolute value. -/
  magnitude : UInt64
  /-- The same, as the power to which ten is raised. -/
  power : UInt32
  deriving DecidableEq

/-- The words by which a decimal is scaled that has the given exponent, and the text behind its
point; there are none if it is not read exactly. -/
def scaling (x : Int64) (fraction : List Char) : Checked Scaling := do
  let places ← ofNat? (String.ofList fraction).utf8ByteSize
  let scale ← sub? x places
  let magnitude ← abs scale
  let limit ← abs scaleLimit
  if limit < magnitude then .refuse
  else
    let power ← narrow magnitude
    pure ⟨places, scale, magnitude, power⟩

/-- The number that digits with a point between them and a power of ten denote. -/
def scaled (whole fraction : List Char) (x : Int64) : Checked Rat :=
  if whole.isEmpty then .refuse
  else do
    let n ← natural? (whole ++ fraction)
    let s ← scaling x fraction
    let power ← powerOfTen s.power
    if 0 ≤ s.scale then pure ((n * power : Nat) : Rat) else ratio n power

/-- The number that a mantissa and a power of ten denote. -/
def mantissa (pointNeeded : Bool) (cs : List Char) (x : Int64) : Checked Rat := do
  let (whole, fraction) ← pointParts? pointNeeded cs
  scaled whole fraction x

/-- An unsigned decimal with a point, an exponent or both. -/
def decimal (cs : List Char) : Checked Rat :=
  match splitAt (fun c => c == 'e' || c == 'E') cs with
  | (digits, some rest) => do
    let x ← exponent rest
    mantissa false digits x
  | (digits, none) => mantissa true digits 0

/-! ### Fractions -/

/-- The quotient of two numbers; none if the second is zero. -/
def quotient (numerator denominator : List Char) : Checked Rat := do
  let n ← natural? numerator
  let d ← natural? denominator
  if d = 0 then .refuse else ratio n d

/-- An unsigned fraction of either notation. -/
def unsigned (cs : List Char) : Checked Rat :=
  match splitAt (fun c => c == '/' || c == 'r') cs with
  | (numerator, some denominator) => quotient numerator denominator
  | (_, none) => decimal cs

/-- The exact number that the literal of a fraction denotes. -/
def readFraction (token : String) : Checked Rat :=
  let (negative, body) := splitSign token.toList
  (fun q => if negative then -q else q) <$> unsigned body

end Word

end LogicTerms.Literal
