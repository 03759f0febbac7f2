/-
**The standard order of terms.**

Variables come before numbers, numbers before atoms, and atoms before compounds.  Variables are in
the order of their ids and atoms in that of their names.  Numbers are in the order of their values
and, where the values are equal, of their kinds; a NaN has no value, and is placed by its sign
beyond everything.  Compounds are in the order of the numbers of their arguments, then of their
functors, then of the first arguments that differ.

Main definitions:

* `Term.compareNumbers` — the order of numbers;
* `Term.compare` — the standard order;
* `Term.sort` — a stable sort by it.
-/

import LogicTerms.Number.Arithmetic
import LogicTerms.Term.Basic

set_option relaxedAutoImplicit false
set_option autoImplicit false

namespace LogicTerms.Term

/-- The order of numbers among terms: by value, then by kind. -/
def compareNumbers (m n : Number) : Ordering :=
  ((m.compare? n).getD (m.toBinary64.totalCompare n.toBinary64)).then
    ((num m).kind.compare (num n).kind)

/-- The place of a term's class among the classes. -/
def classRank : Term → Nat
  | var _ => 0
  | num _ => 1
  | atom _ => 2
  | compound _ _ => 3

mutual

/-- The standard order of two terms. -/
def compare : Term → Term → Ordering
  | var v, var w => Ord.compare v.id w.id
  | num m, num n => compareNumbers m n
  | atom a, atom b => Ord.compare a b
  | compound f as, compound g bs =>
    ((Ord.compare as.length bs.length).then (Ord.compare f g)).then (compareArgs as bs)
  | t, u => Ord.compare t.classRank u.classRank

/-- The order of the first two members that differ. -/
def compareArgs : List Term → List Term → Ordering
  | a :: as, b :: bs => (compare a b).then (compareArgs as bs)
  | _, _ => .eq

end

/-- The terms in standard order, equal ones as they stood. -/
def sort (ts : List Term) : List Term := ts.mergeSort fun a b => (compare a b).isLE

end LogicTerms.Term
