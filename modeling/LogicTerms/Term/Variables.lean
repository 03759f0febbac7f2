/-
**The variables of a term.**

The variables of a term are listed in the order in which a walk from left to right meets them first,
each once, with the name that it has there.  The list of what has been met is handed on from each
argument to the next, and a variable is added to it unless one of its id is there.

Main definitions:

* `Variable.note` — a variable that is met;
* `Variable.distinct` — a list of variables without repeated ids;
* `Term.occurrences` — every occurrence of a variable, from left to right;
* `Term.vars` — the variables of a term.

Main results:

* `Term.occurrences_eq_nil_iff` — the terms without variables are the ground ones.
-/

import LogicTerms.Term.Basic

set_option relaxedAutoImplicit false
set_option autoImplicit false

namespace LogicTerms

namespace Variable

/-- The variables met so far, and one more unless one of its id has been met. -/
def note (met : List Variable) (v : Variable) : List Variable :=
  if met.any (·.id == v.id) then met else met ++ [v]

/-- The first of the variables with each id, in order. -/
def distinct (vs : List Variable) : List Variable := vs.foldl note []

end Variable

namespace Term

/-! ### Occurrences -/

mutual

/-- The occurrences of variables in a term, from left to right. -/
def occurrences : Term → List Variable
  | var v => [v]
  | atom _ => []
  | num _ => []
  | compound _ args => occurrencesArgs args

/-- The occurrences of variables in a list of terms, from left to right. -/
def occurrencesArgs : List Term → List Variable
  | [] => []
  | t :: ts => occurrences t ++ occurrencesArgs ts

end

theorem occurrencesArgs_eq_flatMap (ts : List Term) :
    occurrencesArgs ts = ts.flatMap occurrences := by
  induction ts with
  | nil => rfl
  | cons t ts ih => rw [occurrencesArgs, List.flatMap_cons, ih]

/-- What occurs in a compound occurs in an argument. -/
theorem mem_occurrences_compound_iff {f : String} {args : List Term} {w : Variable} :
    w ∈ (compound f args).occurrences ↔ ∃ a ∈ args, w ∈ a.occurrences := by
  rw [occurrences, occurrencesArgs_eq_flatMap, List.mem_flatMap]

/-- The terms without variables are the ground ones. -/
theorem occurrences_eq_nil_iff {t : Term} : t.occurrences = [] ↔ t.isGround = true := by
  induction t using induct with
  | var v => simp [occurrences, isGround]
  | atom a => simp [occurrences, isGround]
  | num n => simp [occurrences, isGround]
  | compound f args ih =>
    rw [occurrences, occurrencesArgs_eq_flatMap, List.flatMap_eq_nil_iff, isGround,
      isGroundArgs_eq_all, List.all_eq_true]
    exact forall₂_congr ih

/-! ### Variables -/

mutual

/-- The variables met so far, and those of a term that have not been met. -/
def collect (met : List Variable) : Term → List Variable
  | var v => Variable.note met v
  | atom _ => met
  | num _ => met
  | compound _ args => collectArgs met args

/-- The variables met so far, and those of the terms that have not been met. -/
def collectArgs (met : List Variable) : List Term → List Variable
  | [] => met
  | t :: ts => collectArgs (collect met t) ts

end

theorem collectArgs_eq_foldl (met : List Variable) (ts : List Term) :
    collectArgs met ts = ts.foldl collect met := by
  induction ts generalizing met with
  | nil => rfl
  | cons t ts ih => rw [collectArgs, List.foldl_cons, ih]

/-- The variables of a term, in the order of their first occurrences. -/
def vars (t : Term) : List Variable := collect [] t

end Term

end LogicTerms
