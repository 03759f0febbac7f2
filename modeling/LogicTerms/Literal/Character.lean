/-
**Character codes.**

A character code names a character by what stands behind its opening `0'`: the character itself, a
quote once or twice, or an escape.  An escape is a backslash and a letter or mark that stands for a
character, or a backslash, the code point in octal or behind an `x` in hexadecimal digits, and a
closing backslash.

Main definitions:

* `Literal.namedEscape?` — the characters that a single letter or mark stands for;
* `Literal.numericEscape?` — a code point between backslashes;
* `Literal.readCharacter` — the character of a character code.
-/

import LogicTerms.Error
import LogicTerms.Literal.Digits
import LogicTerms.Text.CodePoint

set_option relaxedAutoImplicit false
set_option autoImplicit false

namespace LogicTerms.Literal

/-- The character that an escape of one letter or mark stands for. -/
def namedEscape? : Char → Option Char
  | '\\' => some '\\'
  | '\'' => some '\''
  | '"' => some '"'
  | '\x60' => some '\x60'
  | 'a' => some '\x07'
  | 'b' => some '\x08'
  | 'f' => some '\x0c'
  | 'n' => some '\n'
  | 'r' => some '\r'
  | 's' => some ' '
  | 't' => some '\t'
  | 'v' => some '\x0b'
  | _ => none

/-- The character whose code point is written in digits of the radix before a closing backslash. -/
def numericEscape? (radix : Nat) (cs : List Char) : Option Char :=
  let digits := cs.takeWhile (isDigit radix)
  match cs.dropWhile (isDigit radix) with
  | ['\\'] => if digits.isEmpty then none else Text.ofCodePoint? (ofDigits radix digits)
  | _ => none

/-- The character of an escape, without its opening backslash. -/
def escape? : List Char → Option Char
  | 'x' :: cs => numericEscape? 16 cs
  | c :: cs =>
    if isDigit 8 c then numericEscape? 8 (c :: cs)
    else if cs.isEmpty then namedEscape? c
    else none
  | [] => none

/-- The character of a character code; `token` is the whole code, for messages. -/
def readCharacter (token : String) : List Char → Except LiteralError Char
  | [] => .error (.invalidCharacter token)
  | c :: cs =>
    if c = '\\' then
      if cs.isEmpty then .error (.invalidCharacter token)
      else
        match escape? cs with
        | some d => .ok d
        | none => .error (.invalidEscape token)
    else if cs.isEmpty then .ok c
    else if c = '\'' ∧ cs = ['\''] then .ok '\''
    else .error (.invalidCharacter token)

end LogicTerms.Literal
