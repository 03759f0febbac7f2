/-
**Terms as they are written.**

A compound is its functor with its arguments in parentheses, and a list its items in brackets, with
a bar before the tail unless that is the empty list.  A variable is its name, or its id if it is
anonymous.

Main definitions:

* `Variable.text` — the text of a variable;
* `Term.text` — the text of a term;
* `Term.tailText` — the text of the rest of a list, up to its closing bracket;
* `Term.indicator` — functor and number of arguments.

Main results:

* `Term.text_cons` — a list cell is written as a list.
-/

import LogicTerms.Number.Text
import LogicTerms.Term.Lists
import LogicTerms.Term.Quoting

set_option relaxedAutoImplicit false
set_option autoImplicit false

namespace LogicTerms

/-- The text of a variable: its name, or `_G` and its id if it is anonymous. -/
def Variable.text (v : Variable) : List Char :=
  if v.isAnonymous then '_' :: 'G' :: decimalDigits v.id.toNat else v.name.toList

namespace Term

/-- A functor before the text of its arguments. -/
def applied (functor : String) (args : List Char) : List Char :=
  quoteName functor.toList ++ '(' :: (args ++ [')'])

mutual

/-- The text of a term. -/
def text : Term → List Char
  | var v => v.text
  | atom a => quoteName a.toList
  | num n => n.text
  | compound f args =>
    match f == listFunctor, args with
    | true, [item, rest] => '[' :: (text item ++ (tailText rest ++ [']']))
    | _, args => applied f (argsText args)

/-- The text of the rest of a list, behind an item. -/
def tailText : Term → List Char
  | var v => '|' :: v.text
  | atom a => if a = nilName then [] else '|' :: quoteName a.toList
  | num n => '|' :: n.text
  | compound f args =>
    match f == listFunctor, args with
    | true, [item, rest] => ',' :: (text item ++ tailText rest)
    | _, args => '|' :: applied f (argsText args)

/-- The texts of terms, with commas between them. -/
def argsText : List Term → List Char
  | [] => []
  | [t] => text t
  | t :: ts => text t ++ ',' :: argsText ts

end

/-- A list cell is written as a list. -/
theorem text_cons (item rest : Term) :
    text (cons item rest) = '[' :: (text item ++ (tailText rest ++ [']'])) := by
  rfl

/-- What names a term among the callable ones: its functor and the number of its arguments; the bare
name for a variable and the text for a number. -/
def indicator : Term → List Char
  | var v => v.name.toList
  | atom a => quoteName a.toList ++ ['/', '0']
  | num n => n.text
  | compound f args => quoteName f.toList ++ '/' :: decimalDigits args.length

end Term

end LogicTerms
