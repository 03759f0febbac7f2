/-
**Substitution.**

A substitution puts a term in the place of every variable of a term, and changes nothing else.

Main definitions:

* `Term.subst` — the term with every variable replaced.

Main results:

* `Term.substArgs_eq_map` — the arguments of a compound are replaced each on its own;
* `Term.subst_var` — replacing every variable by itself changes nothing.
-/

import LogicTerms.Term.Basic

set_option relaxedAutoImplicit false
set_option autoImplicit false

namespace LogicTerms.Term

mutual

/-- The term in which each variable has been replaced by what it stands for. -/
def subst (σ : Variable → Term) : Term → Term
  | var v => σ v
  | atom a => atom a
  | num n => num n
  | compound f args => compound f (substArgs σ args)

/-- The terms in which each variable has been replaced by what it stands for. -/
def substArgs (σ : Variable → Term) : List Term → List Term
  | [] => []
  | t :: ts => subst σ t :: substArgs σ ts

end

/-- The arguments of a compound are replaced each on its own. -/
@[simp] theorem substArgs_eq_map (σ : Variable → Term) (ts : List Term) :
    substArgs σ ts = ts.map (subst σ) := by
  induction ts with
  | nil => rfl
  | cons t ts ih => rw [substArgs, List.map_cons, ih]

/-- Replacing every variable by itself changes nothing. -/
theorem subst_var (t : Term) : t.subst var = t := by
  induction t using induct with
  | var v => rfl
  | atom a => rfl
  | num n => rfl
  | compound f args ih =>
    rw [subst, substArgs_eq_map, List.map_congr_left ih, List.map_id']

end LogicTerms.Term
