/-
**Terms of an expected type.**

Where a term of one type is needed and another is found, the error says what was expected and shows
the term.

Main definitions:

* `Term.expectVariable`, `Term.expectAtom`, `Term.expectNumber`, `Term.expectCompound`.
-/

import LogicTerms.Error
import LogicTerms.Term.Text

set_option relaxedAutoImplicit false
set_option autoImplicit false

namespace LogicTerms.Term

/-- The error of a term that is not of the expected type. -/
def mismatch (expected : String) (t : Term) : RunError :=
  .typeError ("Expected " ++ expected ++ ", got: " ++ String.ofList t.text)

/-- The variable that a term is. -/
def expectVariable : Term → Except RunError Variable
  | var v => .ok v
  | t => .error (t.mismatch "variable")

/-- The name of the atom that a term is. -/
def expectAtom : Term → Except RunError String
  | atom a => .ok a
  | t => .error (t.mismatch "atom")

/-- The number that a term is. -/
def expectNumber : Term → Except RunError Number
  | num n => .ok n
  | t => .error (t.mismatch "number")

/-- The functor and the arguments of the compound that a term is. -/
def expectCompound : Term → Except RunError (String × List Term)
  | compound f args => .ok (f, args)
  | t => .error (t.mismatch "compound")

end LogicTerms.Term
