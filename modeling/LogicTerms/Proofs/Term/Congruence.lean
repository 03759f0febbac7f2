/-
**Relations that could be equality.**

Unification makes two terms equal, and there is more than one equality for which that is so: under a
valuation by trees, under a substitution, after expansion.  What the arguments about unification
use of these is little.  To see that unified terms are equal, equality has to go up, from the
arguments of compounds to the compounds: it is a *congruence*.  To see that terms which can be made
equal are unified, it has to go down, from compounds to their arguments: it is a *matching*.  A
matching need not be reflexive, since a NaN equals nothing.  And a term is related to what becomes of
it when variables are replaced by their values even if the relation goes up in one direction only:
then it is a *precongruence*.

Bindings hold in such a relation if it relates every bound variable to its value.

Main definitions:

* `Term.Precongruence` — a relation that goes up;
* `Term.Congruence`, `Term.Matching` — equality upwards, and downwards;
* `Bindings.HoldsIn` — bound variables are related to their values.

Main results:

* `Term.Precongruence.deref` — if bindings hold, a term is related to what it stands for;
* `Term.Matching.deref_left`, `Term.Matching.deref_right` — the same, where something is related;
* `Term.matching_subst` — **having equal instances is a matching**;
* `Bindings.HoldsIn.assign` — a new binding holds with the old ones.
-/

import LogicTerms.Proofs.Bindings.Aliases
import LogicTerms.Proofs.Term.Sameness
import LogicTerms.Proofs.Unification.Runs
import LogicTerms.Term.Substitution

set_option relaxedAutoImplicit false
set_option autoImplicit false

namespace LogicTerms

variable {E : Term → Term → Prop} {env : Bindings}

/-! ### Bindings that hold -/

namespace Bindings

/-- The relation relates every bound variable to its value. -/
def HoldsIn (env : Bindings) (E : Term → Term → Prop) : Prop :=
  ∀ v t, env.find? v = some t → E (.var v) t

/-- Bindings with a new binding hold if the old ones hold and the new one does, whatever the
variable is called. -/
theorem HoldsIn.assign (h : env.HoldsIn E) {v : Variable} {t : Term}
    (ht : ∀ w, w.id = v.id → E (.var w) t) : (env.assign v t).HoldsIn E := by
  intro w u hw
  by_cases hid : w.id = v.id
  · rw [find?_assign_self t hid] at hw
    exact Option.some.inj hw ▸ ht w hid
  · rw [find?_assign_of_ne t hid] at hw
    exact h w u hw

/-- If bindings hold, they held before a variable was bound. -/
theorem HoldsIn.of_assign {v : Variable} {t : Term} (h : (env.assign v t).HoldsIn E)
    (hv : env.find? v = none) : env.HoldsIn E :=
  fun w u hw => h w u (contains_assign t hv w u hw)

end Bindings

namespace Term

/-! ### Relations upwards -/

/-- A relation that goes up from the arguments of compounds to the compounds, and on from one related
term to the next. -/
structure Precongruence (E : Term → Term → Prop) : Prop where
  /-- Every term is related to itself. -/
  refl : ∀ t, E t t
  /-- What a related term is related to is related. -/
  trans : ∀ {t u s}, E t u → E u s → E t s
  /-- Compounds of related arguments are related. -/
  compound : ∀ f {as bs}, List.Forall₂ E as bs → E (.compound f as) (.compound f bs)

namespace Precongruence

theorem follow (hE : Precongruence E) (h : env.HoldsIn E) (n : ℕ) (t : Term) :
    E t (env.follow n t) := by
  induction n generalizing t with
  | zero => cases t <;> exact hE.refl _
  | succ n ih =>
      cases t with
      | var v =>
          rw [Bindings.follow]
          cases hv : env.find? v with
          | none => exact hE.refl _
          | some u => exact hE.trans (h v u hv) (ih u)
      | _ => exact hE.refl _

/-- If bindings hold, a term is related to what it stands for. -/
theorem deref (hE : Precongruence E) (h : env.HoldsIn E) (t : Term) : E t (env.deref t) := by
  cases t with
  | var v =>
      cases hv : env.find? v with
      | none => rw [Bindings.deref_of_settled (Bindings.settled_var_iff.2 hv)]; exact hE.refl _
      | some u =>
          rw [Bindings.deref_of_find? hv]
          exact hE.trans (h v u hv) (hE.follow h _ u)
  | _ => exact hE.refl _

end Precongruence

/-! ### Equality upwards -/

/-- A relation that could be an equality of terms: an equivalence by which variables are known by
their ids, that numbers have if they are equal and compounds if their arguments have it. -/
structure Congruence (E : Term → Term → Prop) : Prop where
  /-- Every term is related to itself. -/
  refl : ∀ t, E t t
  /-- The sides can be changed. -/
  symm : ∀ {t u}, E t u → E u t
  /-- Related terms are related to the same terms. -/
  trans : ∀ {t u s}, E t u → E u s → E t s
  /-- Variables are known by their ids. -/
  var : ∀ {v w}, v.id = w.id → E (.var v) (.var w)
  /-- Equal numbers are related. -/
  num : ∀ {m n}, m.equal n = true → E (.num m) (.num n)
  /-- Compounds of related arguments are related. -/
  compound : ∀ f {as bs}, List.Forall₂ E as bs → E (.compound f as) (.compound f bs)

namespace Congruence

theorem precongruence (hE : Congruence E) : Precongruence E := ⟨hE.refl, hE.trans, hE.compound⟩

theorem deref (hE : Congruence E) (h : env.HoldsIn E) (t : Term) : E t (env.deref t) :=
  hE.precongruence.deref h t

end Congruence

/-! ### Equality downwards -/

/-- A relation that could be the equality of terms, as far as there is any: it is symmetric and
transitive, variables are known by their ids, and terms that are no variables are related only if
they have one head and related arguments. -/
structure Matching (E : Term → Term → Prop) : Prop where
  /-- The sides can be changed. -/
  symm : ∀ {t u}, E t u → E u t
  /-- Related terms are related to the same terms. -/
  trans : ∀ {t u s}, E t u → E u s → E t s
  /-- Variables are known by their ids. -/
  var : ∀ {v w t}, v.id = w.id → E (.var v) t → E (.var w) t
  /-- Related terms are not told apart by their heads. -/
  head : ∀ {t u}, t.isVariable = false → u.isVariable = false → E t u → t.SameHead u
  /-- The arguments of related compounds are related. -/
  args : ∀ {f g as bs}, E (.compound f as) (.compound g bs) → List.Forall₂ E as bs

namespace Matching

/-- The pairs of arguments of related compounds are related. -/
theorem zip (hE : Matching E) {f g : String} {as bs : List Term}
    (h : E (.compound f as) (.compound g bs)) : ∀ p ∈ as.zip bs, E p.1 p.2 :=
  fun _ hp => (List.forall₂_iff_zip.1 (hE.args h)).2 hp

/-- If bindings hold, what a term on the left stands for is related to the same terms. -/
theorem deref_left (hE : Matching E) (h : env.HoldsIn E) {t u : Term} (htu : E t u) :
    E (env.deref t) u := by
  have hfollow : ∀ n t, E t u → E (env.follow n t) u := by
    intro n
    induction n with
    | zero => intro t ht; cases t <;> exact ht
    | succ n ih =>
        intro t ht
        cases t with
        | var v =>
            rw [Bindings.follow]
            cases hv : env.find? v with
            | none => exact ht
            | some s => exact ih s (hE.trans (hE.symm (h v s hv)) ht)
        | _ => exact ht
  cases t with
  | var v =>
      cases hv : env.find? v with
      | none => rwa [Bindings.deref_of_settled (Bindings.settled_var_iff.2 hv)]
      | some s =>
          rw [Bindings.deref_of_find? hv]
          exact hfollow _ s (hE.trans (hE.symm (h v s hv)) htu)
  | _ => exact htu

/-- If bindings hold, what a term on the right stands for is related to the same terms. -/
theorem deref_right (hE : Matching E) (h : env.HoldsIn E) {t u : Term} (htu : E t u) :
    E t (env.deref u) :=
  hE.symm (hE.deref_left h (hE.symm htu))

end Matching

/-! ### Equal instances -/

section Instances

variable {σ : Variable → Term}

/-- Compounds have equal instances if their arguments have. -/
theorem equal_subst_compound_iff {f g : String} {as bs : List Term} :
    ((compound f as).subst σ).equal ((compound g bs).subst σ) = true ↔
      f = g ∧ List.Forall₂ (fun t u => (t.subst σ).equal (u.subst σ) = true) as bs := by
  rw [subst, subst, substArgs_eq_map, substArgs_eq_map, equal, Bool.and_eq_true, beq_iff_eq,
    equalArgs_eq_true_iff, List.forall₂_map_left_iff, List.forall₂_map_right_iff]

/-- Terms with equal instances are not told apart by their heads. -/
theorem sameHead_of_equal_subst {t u : Term} (ht : t.isVariable = false)
    (hu : u.isVariable = false) (h : (t.subst σ).equal (u.subst σ) = true) : t.SameHead u := by
  cases t with
  | var v => exact nomatch ht
  | atom a =>
      cases u with
      | var w => exact nomatch hu
      | atom b => exact beq_iff_eq.1 h
      | _ => exact nomatch h
  | num m =>
      cases u with
      | var w => exact nomatch hu
      | num n => exact h
      | _ => exact nomatch h
  | compound f as =>
      cases u with
      | var w => exact nomatch hu
      | compound g bs =>
          rw [equal_subst_compound_iff] at h
          exact ⟨h.1, h.2.length_eq⟩
      | _ => exact nomatch h

/-- **Having equal instances is a matching**, under every substitution that knows variables by their
ids. -/
theorem matching_subst (hσ : ∀ {v w : Variable}, v.id = w.id → (σ v).Same (σ w)) :
    Matching fun t u => (t.subst σ).equal (u.subst σ) = true where
  symm := equal_symm
  trans := equal_trans
  var hid h := (hσ hid).symm.equal h
  head := sameHead_of_equal_subst
  args h := (equal_subst_compound_iff.1 h).2

end Instances

end Term

end LogicTerms
