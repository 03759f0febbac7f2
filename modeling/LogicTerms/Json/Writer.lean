/-
**JSON as it is written.**

Values are written without blanks.  In strings the quote, the backslash and the controls are
escaped, by a letter where there is one; everything else stands for itself.

Main definitions:

* `Json.writeChar` — a character of a string;
* `Json.write` — the text of a value.
-/

import LogicTerms.Json.Basic

set_option relaxedAutoImplicit false
set_option autoImplicit false

namespace LogicTerms.Json

/-- Decimals from `10 ^ (-5)` up to but not including `10 ^ 16` are positional. -/
def layout : Decimal.Layout := ⟨-4, 16⟩

/-- A character of a string. -/
def writeChar (c : Char) : List Char :=
  match c with
  | '"' => ['\\', '"']
  | '\\' => ['\\', '\\']
  | '\x08' => ['\\', 'b']
  | '\x0c' => ['\\', 'f']
  | '\n' => ['\\', 'n']
  | '\r' => ['\\', 'r']
  | '\t' => ['\\', 't']
  | c =>
    if c.toNat < 32 then
      ['\\', 'u', '0', '0', Nat.digitChar (c.toNat / 16), Nat.digitChar (c.toNat % 16)]
    else [c]

/-- A string between quotes. -/
def writeString (s : String) : List Char := '"' :: (s.toList.flatMap writeChar ++ ['"'])

/-- A sign, if there is one. -/
def writeSign (negative : Bool) : List Char := if negative then ['-'] else []

mutual

/-- The text of a value. -/
def write : Json → List Char
  | null => ['n', 'u', 'l', 'l']
  | bool true => ['t', 'r', 'u', 'e']
  | bool false => ['f', 'a', 'l', 's', 'e']
  | integer negative n => writeSign negative ++ decimalDigits n
  | decimal negative d => writeSign negative ++ d.write layout
  | string s => writeString s
  | array [] => ['[', ']']
  | array (j :: js) => '[' :: (write j ++ writeItems js)
  | object [] => ['\x7b', '\x7d']
  | object (m :: ms) => '\x7b' :: (writeMember m ++ writeMembers ms)

/-- The text of the items behind the first, and of the closing bracket. -/
def writeItems : List Json → List Char
  | [] => [']']
  | j :: js => ',' :: (write j ++ writeItems js)

/-- The text of the members behind the first, and of the closing brace. -/
def writeMembers : List (String × Json) → List Char
  | [] => ['\x7d']
  | m :: ms => ',' :: (writeMember m ++ writeMembers ms)

/-- The text of a member. -/
def writeMember : String × Json → List Char
  | (name, j) => writeString name ++ ':' :: write j

end

/-- The text of a value. -/
def text (j : Json) : String := String.ofList j.write

end LogicTerms.Json
