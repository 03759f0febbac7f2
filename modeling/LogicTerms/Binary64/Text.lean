/-
**The text of a double.**

A finite double is written by the shortest decimal that reads back as it, in a given layout,
behind a minus sign if its sign bit is set, so `-0.0` keeps its sign.  The texts of the others
are `nan`, `inf` and `-inf`.

Main definitions:

* `Binary64.writeFinite` — the text of a finite double in a layout;
* `Binary64.termLayout`, `Binary64.text` — the text of a double in a term.
-/

import LogicTerms.Binary64.Shortest

set_option relaxedAutoImplicit false
set_option autoImplicit false

namespace LogicTerms.Binary64

/-- The text of a finite double in a layout. -/
def writeFinite (layout : Decimal.Layout) (x : Binary64) : List Char :=
  (if x.negative then ['-'] else []) ++ (shortest x.magnitude).write layout

/-- In a term, a double from `10 ^ (-4)` up to but not including `10 ^ 15` is positional. -/
def termLayout : Decimal.Layout := ⟨-3, 15⟩

/-- The text of a double in a term. -/
def text (x : Binary64) : List Char :=
  if x.isNaN then ['n', 'a', 'n']
  else if x.isInfinite then
    if x.negative then ['-', 'i', 'n', 'f'] else ['i', 'n', 'f']
  else x.writeFinite termLayout

end LogicTerms.Binary64
