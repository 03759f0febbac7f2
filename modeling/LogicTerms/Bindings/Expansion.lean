/-
**Terms with their variables replaced.**

Expanding a term replaces every bound variable in it by what the variable stands for, expanded in
turn.  Since a variable may be bound to a term in which it occurs, a variable is left as it is
inside its own expansion; so every variable is expanded at most once on the way down to any place,
and the number of bound variables bounds the depth of nested expansions.

Main definitions:

* `Bindings.expandVariable` — a variable, outside of the expansions that it is part of;
* `Bindings.expand` — the term with every bound variable replaced;
* `Bindings.byName?` — what the variable of a name stands for;
* `Bindings.text` — the named variables with their values.
-/

import LogicTerms.Bindings.Basic
import LogicTerms.Term.Substitution

set_option relaxedAutoImplicit false
set_option autoImplicit false

namespace LogicTerms.Bindings

/-- The expansion of a variable, inside the expansions of the variables with ids `within`, and with
at most so many more around it. -/
def expandVariable (env : Bindings) : Nat → List UInt64 → Variable → Term
  | 0, _, v => .var v
  | depth + 1, within, v =>
    if within.contains v.id then .var v
    else
      match env.deref (.var v) with
      | .var w => .var w
      | t => t.subst (env.expandVariable depth (v.id :: within))

/-- The term in which every bound variable has been replaced by what it stands for. -/
def expand (env : Bindings) (t : Term) : Term := t.subst (env.expandVariable (env.size + 1) [])

/-- What the variable of a name stands for, expanded; the variable itself if it is unbound. -/
def byName? (env : Bindings) (name : String) : Option Term :=
  (env.names.find? name).map fun v => env.expand (.var v)

/-- A named variable is shown if it is bound and its name does not start with an underscore. -/
def isShown (env : Bindings) (entry : String × Variable) : Bool :=
  entry.1.toList.head? != some '_' && env.isBound entry.2

/-- The text of a name with its value. -/
def answerText (env : Bindings) (entry : String × Variable) : List Char :=
  entry.1.toList ++ " = ".toList ++ (env.expand (.var entry.2)).text

/-- The named variables with their values, in the order of their names. -/
def text (env : Bindings) : List Char :=
  let answers := (env.sortedNames.filter env.isShown).map env.answerText
  '\x7b' :: (", ".toList.intercalate answers ++ ['\x7d'])

end LogicTerms.Bindings
