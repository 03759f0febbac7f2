/-
**Integer literals.**

An integer literal is a character code behind `0'`, digits of radix 2, 8 or 16 behind `0b`, `0o`
or `0x`, or decimal digits behind an optional sign.  One of those openings with nothing behind it
is not an opening, but a zero followed by something else.

The caller promises that the text is not empty, and that a digit of the radix stands where the
digits start.  A text that breaks the promise is a violation; one that goes on after its digits is
an error.

Main definitions:

* `Literal.readMagnitude` — a run of digits of a radix that fills the text;
* `Literal.readInteger` — an integer literal.
-/

import LogicTerms.Literal.Character
import LogicTerms.Number.Basic

set_option relaxedAutoImplicit false
set_option autoImplicit false

namespace LogicTerms.Literal

/-- The number whose digits in a radix are the whole of a text; `token` is the literal that the
text is part of, for messages. -/
def readMagnitude (token : String) (radix : Nat) (cs : List Char) : Except Failure Nat :=
  if !cs.head?.any (isDigit radix) then .error (.violation (.noDigits token radix))
  else if cs.all (isDigit radix) then .ok (ofDigits radix cs)
  else .error (.ofLiteral (.invalidInteger token))

/-- A decimal integer with an optional sign. -/
def readDecimalInteger (token : String) (cs : List Char) : Except Failure Int :=
  let (negative, digits) := splitSign cs
  (readMagnitude token 10 digits).map fun n => if negative then -(n : Int) else (n : Int)

/-- The number that an integer literal denotes. -/
def readInteger (token : String) : Except Failure Number :=
  match token.toList with
  | [] => .error (.violation .emptyInteger)
  | '0' :: '\'' :: c :: cs =>
    ((readCharacter token (c :: cs)).map Number.ofChar).mapError Failure.ofLiteral
  | '0' :: 'b' :: c :: cs => (readMagnitude token 2 (c :: cs)).map fun n => .int n
  | '0' :: 'o' :: c :: cs => (readMagnitude token 8 (c :: cs)).map fun n => .int n
  | '0' :: 'x' :: c :: cs => (readMagnitude token 16 (c :: cs)).map fun n => .int n
  | cs => (readDecimalInteger token cs).map .int

end LogicTerms.Literal
