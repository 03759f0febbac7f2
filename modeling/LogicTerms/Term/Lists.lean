/-
**Lists as terms.**

A list cell is a compound of the functor `.` with two arguments, an item and the rest of the list.
The rest of a proper list is in the end the atom `[]`; in a partial list it is any other term.

Main definitions:

* `Term.list`, `Term.listWithTail` — the term of a proper or partial list;
* `Term.codes` — the list of a text's character codes;
* `Term.spine`, `Term.listItems?` — the items of a list and what ends it.

Main results:

* `Term.spine_listWithTail` — items put in front of a tail are found in front of its own items.
-/

import LogicTerms.Term.Basic

set_option relaxedAutoImplicit false
set_option autoImplicit false

namespace LogicTerms.Term

/-- The functor of a list cell. -/
def listFunctor : String := "."

/-- The name of the empty list. -/
def nilName : String := "[]"

/-- The empty list. -/
def nil : Term := atom nilName

/-- An item in front of the rest of a list. -/
def cons (item rest : Term) : Term := compound listFunctor [item, rest]

/-- A list of items that ends in the given tail. -/
def listWithTail (items : List Term) (tail : Term) : Term := items.foldr cons tail

/-- A proper list. -/
def list (items : List Term) : Term := listWithTail items nil

/-- The proper list of the codes of a text's characters. -/
def codes (text : String) : Term := list (text.toList.map fun c => num (.ofChar c))

/-- The empty list. -/
def isNil : Term → Bool
  | atom a => a == nilName
  | _ => false

/-- The items along the cells of a term, and the first rest that is no cell. -/
def spine : Term → List Term × Term
  | compound f [item, rest] =>
    if f = listFunctor then
      let s := spine rest
      (item :: s.1, s.2)
    else ([], compound f [item, rest])
  | t => ([], t)

/-- The items of a list and its tail; none if the term is neither a list cell nor the empty list. -/
def listItems? (t : Term) : Option (List Term × Term) :=
  let s := spine t
  if s.1.isEmpty && !s.2.isNil then none else some s

/-- The spine of a cell starts with its item. -/
@[simp] theorem spine_cons (item rest : Term) :
    spine (cons item rest) = (item :: (spine rest).1, (spine rest).2) := by
  rw [cons, spine, if_pos rfl]

/-- Items put in front of a tail are found in front of its own items. -/
theorem spine_listWithTail (items : List Term) (tail : Term) :
    spine (listWithTail items tail) = (items ++ (spine tail).1, (spine tail).2) := by
  induction items with
  | nil => rfl
  | cons item items ih =>
    change spine (cons item (listWithTail items tail)) = _
    rw [spine_cons, ih, List.cons_append]

end LogicTerms.Term
