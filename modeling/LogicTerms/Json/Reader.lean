/-
**Reading JSON.**

A text is read as one value with nothing but blanks around it.  The grammar is strict: no leading
zeros or signs, no point without digits on both sides, no control characters inside strings, no
commas before a closing bracket, and no halves of surrogate pairs.  Arrays and objects are nested to
a limit.

Each reader takes a value off the front of a text and gives back the rest.  Those that call one
another nest at most two steps for each character of the text.

Main definitions:

* `Json.readStringBody` — a string behind its opening quote;
* `Json.readNumber` — a number;
* `Json.readBracketed`, `Json.readParts` — what stands between brackets, given a reader of its parts;
* `Json.readValue` — a value, within a depth of nesting;
* `Json.read?` — a text that is one value.
-/

import LogicTerms.Json.Basic
import LogicTerms.Literal.Digits
import LogicTerms.Text.CodePoint

set_option relaxedAutoImplicit false
set_option autoImplicit false

namespace LogicTerms.Json

/-- How deep a text may nest arrays and objects. -/
def depthLimit : Nat := 127

/-- A character that may stand between the parts of a value. -/
def isBlank (c : Char) : Bool := c == ' ' || c == '\t' || c == '\n' || c == '\r'

/-- The text from its first character that is not blank. -/
def skipBlanks (cs : List Char) : List Char := cs.dropWhile isBlank

/-! ### Strings -/

/-- The number that four hexadecimal digits spell. -/
def hexUnit? (a b c d : Char) : Option Nat :=
  if [a, b, c, d].all (Literal.isDigit 16) then some (Literal.ofDigits 16 [a, b, c, d]) else none

/-- The character of a pair of surrogates. -/
def surrogatePair? (high low : Nat) : Option Char :=
  if 0xD800 ≤ high ∧ high < 0xDC00 ∧ 0xDC00 ≤ low ∧ low < 0xE000 then
    Text.ofCodePoint? (0x10000 + (high - 0xD800) * 0x400 + (low - 0xDC00))
  else none

/-- The character that a letter or mark behind a backslash stands for. -/
def shortEscape? : Char → Option Char
  | '"' => some '"'
  | '\\' => some '\\'
  | '/' => some '/'
  | 'b' => some '\x08'
  | 'f' => some '\x0c'
  | 'n' => some '\n'
  | 'r' => some '\r'
  | 't' => some '\t'
  | _ => none

/-- A string behind its opening quote, and the text behind its closing one. -/
def readStringBody : List Char → Option (List Char × List Char)
  | [] => none
  | '"' :: cs => some ([], cs)
  | '\\' :: 'u' :: a :: b :: c :: d :: cs =>
    match hexUnit? a b c d with
    | none => none
    | some high =>
      match Text.ofCodePoint? high with
      | some x => (readStringBody cs).map fun r => (x :: r.1, r.2)
      | none =>
        match cs with
        | '\\' :: 'u' :: e :: f :: g :: h :: cs =>
          match (hexUnit? e f g h).bind (surrogatePair? high) with
          | some x => (readStringBody cs).map fun r => (x :: r.1, r.2)
          | none => none
        | _ => none
  | '\\' :: c :: cs =>
    match shortEscape? c with
    | some x => (readStringBody cs).map fun r => (x :: r.1, r.2)
    | none => none
  | c :: cs =>
    if c.toNat < 32 then none else (readStringBody cs).map fun r => (c :: r.1, r.2)

/-! ### Numbers -/

/-- The digits at the front of a text, at least one, and the rest. -/
def readDigits (cs : List Char) : Option (List Char × List Char) :=
  let digits := cs.takeWhile (Literal.isDigit 10)
  if digits.isEmpty then none else some (digits, cs.dropWhile (Literal.isDigit 10))

/-- The digits before the point: a zero stands alone. -/
def readWhole (cs : List Char) : Option (List Char × List Char) :=
  match readDigits cs with
  | some ('0' :: _ :: _, _) => none
  | r => r

/-- The digits behind the point; none of them if there is no point. -/
def readFraction : List Char → Option (List Char × List Char)
  | '.' :: cs => readDigits cs
  | cs => some ([], cs)

/-- The power of ten, if an exponent is written. -/
def readExponent : List Char → Option (Option Int × List Char)
  | c :: cs =>
    if c = 'e' ∨ c = 'E' then
      let (negative, cs) := Literal.splitSign cs
      (readDigits cs).map fun r =>
        let n := Literal.ofDigits 10 r.1
        (some (if negative then -(n : Int) else (n : Int)), r.2)
    else some (none, c :: cs)
  | [] => some (none, [])

/-- A number behind its sign. -/
def readMagnitude (negative : Bool) (cs : List Char) : Option (Json × List Char) := do
  let (whole, cs) ← readWhole cs
  let (fraction, cs) ← readFraction cs
  let (exponent, cs) ← readExponent cs
  let n := Literal.ofDigits 10 (whole ++ fraction)
  if fraction.isEmpty && exponent.isNone then some (integer negative n, cs)
  else some (decimal negative ⟨n, exponent.getD 0 - fraction.length⟩, cs)

/-- A number. -/
def readNumber : List Char → Option (Json × List Char)
  | '-' :: cs => readMagnitude true cs
  | cs => readMagnitude false cs

/-! ### Values -/

/-- A value that is neither a string, nor an array, nor an object. -/
def readScalar : List Char → Option (Json × List Char)
  | 'n' :: 'u' :: 'l' :: 'l' :: cs => some (null, cs)
  | 't' :: 'r' :: 'u' :: 'e' :: cs => some (bool true, cs)
  | 'f' :: 'a' :: 'l' :: 's' :: 'e' :: cs => some (bool false, cs)
  | cs => readNumber cs

section Brackets

variable {α : Type}

/-- What stands behind an opening bracket, up to the closing one: nothing, or parts that the given
reader reads.  Between the brackets there is room for one bracket less. -/
def readBracketed (close : Char) (parts : Nat → List Char → Option (List α × List Char)) :
    Nat → List Char → Option (List α × List Char)
  | 0, _ => none
  | depth + 1, cs =>
    match skipBlanks cs with
    | [] => none
    | c :: cs => if c = close then some ([], cs) else parts depth (c :: cs)

/-- Parts with commas between them, up to the closing bracket: the first, and more of them behind a
comma, each read by the given reader. -/
def readParts (close : Char) (first : Nat → List Char → Option (α × List Char))
    (more : Nat → List Char → Option (List α × List Char)) (depth : Nat) (cs : List Char) :
    Option (List α × List Char) :=
  match first depth cs with
  | none => none
  | some (a, cs) =>
    match skipBlanks cs with
    | [] => none
    | c :: cs =>
      if c = close then some ([a], cs)
      else if c = ',' then (more depth cs).map fun r => (a :: r.1, r.2)
      else none

end Brackets

mutual

/-- A value, with at most so many steps and so deep a nesting. -/
def readValue : Nat → Nat → List Char → Option (Json × List Char)
  | 0, _, _ => none
  | steps + 1, depth, cs =>
    match skipBlanks cs with
    | '"' :: cs => (readStringBody cs).map fun r => (string (String.ofList r.1), r.2)
    | '[' :: cs => (readBracketed ']' (readItems steps) depth cs).map fun r => (array r.1, r.2)
    | '\x7b' :: cs =>
      (readBracketed '\x7d' (readMembers steps) depth cs).map fun r => (object r.1, r.2)
    | cs => readScalar cs
termination_by structural steps => steps

/-- The items of an array, up to its closing bracket. -/
def readItems : Nat → Nat → List Char → Option (List Json × List Char)
  | 0, _, _ => none
  | steps + 1, depth, cs => readParts ']' (readValue steps) (readItems steps) depth cs
termination_by structural steps => steps

/-- The members of an object, up to its closing brace. -/
def readMembers : Nat → Nat → List Char → Option (List (String × Json) × List Char)
  | 0, _, _ => none
  | steps + 1, depth, cs => readParts '\x7d' (readMember steps) (readMembers steps) depth cs
termination_by structural steps => steps

/-- A member of an object: a name, a colon and a value. -/
def readMember : Nat → Nat → List Char → Option ((String × Json) × List Char)
  | 0, _, _ => none
  | steps + 1, depth, cs =>
    match skipBlanks cs with
    | '"' :: cs =>
      match readStringBody cs with
      | none => none
      | some (name, cs) =>
        match skipBlanks cs with
        | ':' :: cs => (readValue steps depth cs).map fun r => ((String.ofList name, r.1), r.2)
        | _ => none
    | _ => none
termination_by structural steps => steps

end

/-- The value that a text holds, with nothing but blanks around it, nested within a depth. -/
def readWithin? (depth : Nat) (text : String) : Option Json :=
  let cs := text.toList
  match readValue (2 * cs.length + 1) depth cs with
  | some (j, rest) => if (skipBlanks rest).isEmpty then some j else none
  | none => none

/-- The value that a text holds, nested within the limit. -/
def read? (text : String) : Option Json := readWithin? depthLimit text

end LogicTerms.Json
