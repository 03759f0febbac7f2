/-
**Atoms as they are written.**

The name of an atom is written bare if a reader of terms takes it for one atom: a lower-case letter
with letters, digits and underscores behind it, symbol characters alone, or one of four special
names.  Any other name is written between quotes, with the quote, the backslash, the line feed and
the tab escaped.  A lone full stop ends a clause, so it is quoted.

Main definitions:

* `Term.isBare` — a name that needs no quotes;
* `Term.quoteName` — the written form of a name.

Main results:

* `Term.quoteName_of_isBare` — a bare name is written as it is.
-/

set_option relaxedAutoImplicit false
set_option autoImplicit false

namespace LogicTerms.Term

/-- The characters that form atoms among themselves. -/
def symbolCharacters : List Char :=
  ['+', '-', '*', '/', '\\', '^', '<', '>', '=', '~', ':', '.', '?', '@', '#', '&', '$']

/-- The names that are atoms by themselves. -/
def specialNames : List (List Char) := [['[', ']'], ['!'], [';'], ['\x7b', '\x7d']]

/-- A name that needs no quotes; letters and digits are those of ASCII. -/
def isBare (name : List Char) : Bool :=
  specialNames.contains name ||
    match name with
    | [] => false
    | c :: cs =>
      if c.isLower then cs.all fun d => d.isAlphanum || d == '_'
      else name != ['.'] && name.all symbolCharacters.contains

/-- A character between quotes. -/
def quoteChar : Char → List Char
  | '\'' => ['\\', '\'']
  | '\\' => ['\\', '\\']
  | '\n' => ['\\', 'n']
  | '\t' => ['\\', 't']
  | c => [c]

/-- The written form of a name. -/
def quoteName (name : List Char) : List Char :=
  if isBare name then name else '\'' :: (name.flatMap quoteChar ++ ['\''])

/-- A bare name is written as it is. -/
theorem quoteName_of_isBare {name : List Char} (h : isBare name = true) : quoteName name = name :=
  if_pos h

end LogicTerms.Term
