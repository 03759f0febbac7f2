/-
**Solutions by finite trees.**

A finite tree is a term.  A valuation by finite trees gives one to every variable, by its id, and
with it to every term; it equates two terms if their trees are equal as terms are, so that a tree
with a NaN equals nothing.  This equality goes down to the arguments of compounds, and equal trees
have the same size.  That is all that finiteness is needed for: a solution is a bound for
everything that unification does with the terms it equates, and bindings that have a solution
cannot have a cycle other than one of variables.

Main definitions:

* `FiniteValuation`, `Term.under` — finite trees for variables, and for terms;
* `FiniteValuation.Equates`, `FiniteValuation.Solves` — two terms have equal trees, all bound
  variables and their values have.

Main results:

* `FiniteValuation.matching` — being equated is a matching;
* `FiniteValuation.Equates.termSize_eq` — equated terms have trees of one size;
* `FiniteValuation.Solves.acyclic` — **solved bindings are acyclic** if variables make no cycle.
-/

import LogicTerms.Proofs.Bindings.Acyclic
import LogicTerms.Proofs.Term.Congruence
import LogicTerms.Proofs.Term.Sameness
import Mathlib.Data.Prod.Lex

set_option relaxedAutoImplicit false
set_option autoImplicit false

namespace LogicTerms

open Unification (termSize termSizeArgs)

/-! ### Trees of terms -/

/-- A finite tree for every variable, by its id. -/
abbrev FiniteValuation := UInt64 → Term

namespace Term

variable {σ : FiniteValuation}

/-- The finite tree of a term. -/
def under (t : Term) (σ : FiniteValuation) : Term := t.subst fun v => σ v.id

theorem under_var (v : Variable) : (var v).under σ = σ v.id := rfl

theorem under_compound (f : String) (args : List Term) :
    (compound f args).under σ = compound f (args.map fun a => a.under σ) := by
  rw [under, subst, substArgs_eq_map]
  rfl

/-! ### Sizes -/

/-- Arguments are smaller than their compound. -/
theorem termSize_lt_of_mem {f : String} {args : List Term} {a : Term} (h : a ∈ args) :
    termSize a < termSize (compound f args) := by
  induction args with
  | nil => exact nomatch h
  | cons b bs ih =>
      rw [termSize] at ih ⊢
      rw [termSizeArgs]
      obtain rfl | h := List.mem_cons.1 h
      · omega
      · have := ih h
        omega

theorem termSizeArgs_canonicalArgs {ts : List Term}
    (h : ∀ t ∈ ts, termSize t.canonical = termSize t) :
    termSizeArgs (canonicalArgs ts) = termSizeArgs ts := by
  induction ts with
  | nil => rfl
  | cons t ts ih =>
      rw [canonicalArgs, termSizeArgs, termSizeArgs, h t List.mem_cons_self,
        ih fun u hu => h u (List.mem_cons_of_mem t hu)]

theorem termSize_canonical (t : Term) : termSize t.canonical = termSize t := by
  induction t using induct with
  | compound f args ih => rw [canonical, termSize, termSize, termSizeArgs_canonicalArgs ih]
  | _ => rfl

/-- The tree of a variable is no larger than that of a term which it occurs in. -/
theorem termSize_le_of_mentions {t : Term} {i : UInt64} (h : t.Mentions i) :
    termSize (σ i) ≤ termSize (t.under σ) := by
  induction t using induct with
  | var v => rw [under_var, mentions_var_iff.1 h]
  | atom a => obtain ⟨w, hw, -⟩ := h; exact nomatch hw
  | num n => obtain ⟨w, hw, -⟩ := h; exact nomatch hw
  | compound f args ih =>
      obtain ⟨a, ha, hi⟩ := mentions_compound_iff.1 h
      rw [under_compound]
      exact (ih a ha hi).trans (termSize_lt_of_mem (List.mem_map_of_mem ha)).le

/-- The tree of a variable is smaller than that of any other term which it occurs in. -/
theorem termSize_lt_of_mentions {t : Term} {i : UInt64} (h : t.Mentions i)
    (ht : t.isVariable = false) : termSize (σ i) < termSize (t.under σ) := by
  cases t with
  | var v => exact nomatch ht
  | atom a => obtain ⟨w, hw, -⟩ := h; exact nomatch hw
  | num n => obtain ⟨w, hw, -⟩ := h; exact nomatch hw
  | compound f args =>
      obtain ⟨a, ha, hi⟩ := mentions_compound_iff.1 h
      rw [under_compound]
      exact (termSize_le_of_mentions hi).trans_lt (termSize_lt_of_mem (List.mem_map_of_mem ha))

end Term

/-! ### Solutions -/

namespace FiniteValuation

variable {σ : FiniteValuation}

/-- The terms have equal trees. -/
def Equates (σ : FiniteValuation) (t u : Term) : Prop := (t.under σ).equal (u.under σ) = true

/-- Every bound variable has the tree of its value. -/
def Solves (σ : FiniteValuation) (env : Bindings) : Prop := env.HoldsIn σ.Equates

theorem equates_iff {t u : Term} :
    σ.Equates t u ↔ (t.under σ).Same (u.under σ) ∧ (t.under σ).Ordered := Term.equal_iff

theorem Equates.symm {t u : Term} (h : σ.Equates t u) : σ.Equates u t := Term.equal_symm h

theorem Equates.trans {t u s : Term} (h : σ.Equates t u) (h' : σ.Equates u s) :
    σ.Equates t s := Term.equal_trans h h'

/-- **Equated terms have trees of one size.** -/
theorem Equates.termSize_eq {t u : Term} (h : σ.Equates t u) :
    termSize (t.under σ) = termSize (u.under σ) := by
  rw [← Term.termSize_canonical, (equates_iff.1 h).1, Term.termSize_canonical]

/-- **Being equated is a matching.** -/
theorem matching (σ : FiniteValuation) : Term.Matching σ.Equates :=
  Term.matching_subst fun {v w} hid => show Term.Same (σ v.id) (σ w.id) from hid ▸ Term.Same.refl _

/-- **Solved bindings are acyclic**, if there is no cycle of variables: the trees of variables get
smaller along every reference but those from a variable to a variable. -/
theorem Solves.acyclic {env : Bindings} (h : σ.Solves env) (hc : env.NoAliasCycle) :
    env.Acyclic := by
  refine Bindings.acyclic_of_lt
    (fun i => toLex (termSize (σ i), (env.ahead env.Aliases i).card)) ?_
  rintro i j ⟨t, ht, hj⟩
  -- a variable as the value leaves the size as it is, but then fewer variables are ahead
  have hsize : termSize (σ i) = termSize (t.under σ) := (h ⟨"", i⟩ t ht).termSize_eq
  rw [Prod.Lex.toLex_lt_toLex]
  cases hv : t.isVariable with
  | false => exact .inl (hsize ▸ Term.termSize_lt_of_mentions hj hv)
  | true =>
      cases t with
      | var w =>
          have hw : w.id = j := Term.mentions_var_iff.1 hj
          have hlt := Bindings.card_ahead_lt (Bindings.mem_boundIds_iff.2 ⟨_, ht⟩)
            (.single ⟨w, ht, hw⟩) (hc i)
          exact .inr ⟨by rw [hsize, Term.under_var, hw], hlt⟩
      | _ => exact nomatch hv

end FiniteValuation

end LogicTerms
