/-
**Bindings have solutions.**

Bindings are equations, one for every bound variable, and without a cycle of variables each of them
says what stands at the root of a tree.  So they can be solved: the tree of a term is grown from the
root, where the root shows what the term stands for and the arguments are grown in turn.  Where a
variable is part of its own value the tree never ends, which is why solutions are infinite trees in
general.  An unbound variable may have any tree, and here it has that of an atom.

Main definitions:

* `Bindings.layer`, `Bindings.grow` — the root of the tree of a term, and the whole tree;
* `Bindings.solution` — the trees of the variables.

Main results:

* `Bindings.grow_eq_tree` — the tree that is grown from a term is its tree under the solution;
* `Bindings.solves_solution` — **bindings without a cycle of variables have a solution**.
-/

import LogicTerms.Proofs.Bindings.Aliases
import LogicTerms.Proofs.Term.Tree

set_option relaxedAutoImplicit false
set_option autoImplicit false

namespace LogicTerms

/-! ### Roots of trees -/

/-- A tree with a functor at its root is that of the functor with the trees below. -/
theorem Tree.node_compound {f : String} {n : ℕ} {below : Fin n → Tree} {ts : List Tree}
    (hlen : ts.length = n) (h : ∀ i : Fin n, ts.get (i.cast hlen.symm) = below i) :
    Tree.node (.compound f n) below = Tree.compound f ts := by
  subst hlen
  rw [compound]
  congr 1
  funext i
  exact (h i).symm

namespace Bindings

variable {env : Bindings}

/-! ### Growing trees -/

/-- What stands at the root of the tree of a term, with the terms whose trees are below. -/
def layer (env : Bindings) (t : Term) : Tree.shape Term :=
  match env.deref t with
  | .var _ => ⟨.atom "", Fin.elim0⟩
  | .atom a => ⟨.atom a, Fin.elim0⟩
  | .num n => ⟨.num (Quotient.mk _ n), Fin.elim0⟩
  | .compound f args => ⟨.compound f args.length, args.get⟩

/-- The tree that is grown from a term. -/
def grow (env : Bindings) (t : Term) : Tree := PFunctor.M.corec env.layer t

theorem grow_eq (t : Term) :
    env.grow t = Tree.node (env.layer t).1 fun i => env.grow ((env.layer t).2 i) := by
  rw [grow, PFunctor.M.corec_def]
  rfl

/-- The tree depends on what the term stands for alone. -/
theorem grow_congr {t u : Term} (h : env.layer t = env.layer u) : env.grow t = env.grow u := by
  rw [grow_eq t, grow_eq u, h]

theorem grow_atom (a : String) : env.grow (.atom a) = .atom a := by
  rw [grow_eq]
  exact congrArg (Tree.node (.atom a)) (funext fun i => i.elim0)

theorem grow_num (n : Number) : env.grow (.num n) = .num n := by
  rw [grow_eq]
  exact congrArg (Tree.node (.num (Quotient.mk _ n))) (funext fun i => i.elim0)

theorem grow_compound (f : String) (args : List Term) :
    env.grow (.compound f args) = .compound f (args.map env.grow) := by
  rw [grow_eq]
  refine Tree.node_compound (List.length_map _) fun i => ?_
  rw [List.get_eq_getElem, List.getElem_map]
  rfl

/-! ### The solution -/

/-- The trees that are grown from the variables. -/
def solution (env : Bindings) : Valuation := fun i => env.grow (.var ⟨"", i⟩)

/-- A variable is known by its id. -/
theorem layer_var_congr {v w : Variable} (h : v.id = w.id) :
    env.layer (.var v) = env.layer (.var w) := by
  have hvw : env.find? v = env.find? w := find?_congr h
  cases hv : env.find? v with
  | none =>
      have hw : env.find? w = none := hvw ▸ hv
      rw [layer, layer, deref_of_settled (settled_var_iff.2 hv),
        deref_of_settled (settled_var_iff.2 hw)]
  | some t =>
      have hw : env.find? w = some t := hvw ▸ hv
      rw [layer, layer, deref_of_find? hv, deref_of_find? hw]

/-- The tree that is grown from a term is its tree under the solution. -/
theorem grow_eq_tree (t : Term) : env.grow t = t.tree env.solution := by
  induction t using Term.induct with
  | var v => exact grow_congr (layer_var_congr rfl)
  | atom a => rw [grow_atom, Term.tree]
  | num n => rw [grow_num, Term.tree]
  | compound f args ih =>
      rw [grow_compound, Term.tree, Term.trees_eq_map]
      congr 1
      exact List.map_congr_left ih

/-- **Bindings without a cycle of variables have a solution.** -/
theorem solves_solution (hc : env.NoAliasCycle) : env.solution.Solves env := by
  intro v t hv
  have hlayer : env.layer (.var v) = env.layer t := by
    rw [layer, layer, deref_eq_of_find? hc hv]
  calc env.solution v.id = env.grow (.var v) := grow_congr (layer_var_congr rfl)
    _ = env.grow t := grow_congr hlayer
    _ = t.tree env.solution := grow_eq_tree t

end Bindings

end LogicTerms
