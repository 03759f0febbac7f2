/-
**Unified terms are equal.**

If a run succeeds, the bindings that it ends with hold only where those that it started from hold
too, and where they hold the two terms are equal.  This is so for every congruence.  Under a
valuation by trees, finite or infinite, it says that the bindings are solved by nothing but common
solutions of the old bindings and the equation of the two terms, whether or not the run made a
variable part of its own value.  And if the bindings have no cycle, then expansion is a congruence
in which they hold, so that the two terms expand to the same term.

Main results:

* `Unification.soundness` — every kind of step is sound for every congruence;
* `Valuation.congruence_tree`, `Bindings.congruence_expand` — trees and expansions are congruences;
* `Unification.unify_sound` — **unified terms have the same tree, and the same expansion**.
-/

import LogicTerms.Proofs.Bindings.Acyclic
import LogicTerms.Proofs.Term.Congruence
import LogicTerms.Proofs.Term.Tree

set_option relaxedAutoImplicit false
set_option autoImplicit false

namespace LogicTerms

/-! ### Two congruences -/

/-- Having one tree under a valuation is a congruence. -/
theorem Valuation.congruence_tree (ρ : Valuation) :
    Term.Congruence fun t u => t.tree ρ = u.tree ρ where
  refl _ := rfl
  symm h := h.symm
  trans h h' := h.trans h'
  var {v w} h := by rw [Term.tree, Term.tree, h]
  num h := Tree.num_eq_iff.2 (Number.equal_eq_true_iff.1 h).1
  compound f as bs h := by
    have hargs : as.map (Term.tree ρ) = bs.map (Term.tree ρ) := by
      rw [← List.forall₂_eq_eq_eq, List.forall₂_map_left_iff, List.forall₂_map_right_iff]
      exact h
    rw [Term.tree, Term.tree, Term.trees_eq_map, Term.trees_eq_map, hargs]

namespace Bindings

variable {env : Bindings}

/-- Variables of one id expand to the same term. -/
theorem expand_var_same {v w : Variable} (h : v.id = w.id) :
    (env.expand (.var v)).Same (env.expand (.var w)) := by
  cases hv : env.find? v with
  | none =>
      have hw : env.find? w = none := (find?_congr h).symm.trans hv
      rw [expand_of_unbound hv, expand_of_unbound hw]
      exact Term.same_var_iff.2 h
  | some t =>
      have hd : env.deref (.var v) = env.deref (.var w) := by
        rw [deref_of_find? hv, deref_of_find? ((find?_congr h).symm.trans hv)]
      rw [expand_eq_expandVariable, expand_eq_expandVariable,
        expandVariable_succ List.not_mem_nil, expandVariable_succ List.not_mem_nil, hd, h]
      exact Term.Same.refl _

/-- Having the same expansion is a congruence. -/
theorem congruence_expand (env : Bindings) :
    Term.Congruence fun t u => (env.expand t).Same (env.expand u) where
  refl _ := Term.Same.refl _
  symm h := h.symm
  trans h h' := h.trans h'
  var h := expand_var_same h
  num h := Term.same_num_iff.2 (Number.equal_eq_true_iff.1 h).1
  compound f as bs h := by
    rw [expand_compound, expand_compound, Term.same_compound_iff, List.forall₂_map_left_iff,
      List.forall₂_map_right_iff]
    exact ⟨rfl, h⟩

end Bindings

namespace Unification

/-! ### Soundness -/

/-- **Every kind of step is sound for every congruence**: where the new bindings hold, the old ones
hold and the terms are equal. -/
theorem soundness {E : Term → Term → Prop} (hE : Term.Congruence E) :
    SuccessInvariant (fun env a b env' => env'.HoldsIn E → env.HoldsIn E ∧ E a b)
      (fun env pairs env' => env'.HoldsIn E → env.HoldsIn E ∧ ∀ p ∈ pairs, E p.1 p.2) where
  same env v b w x hw hb hid h := by
    refine ⟨h, ?_⟩
    have hv : E (.var v) (.var w) := hw ▸ hE.deref h (.var v)
    have hb' : E b (.var x) := hb ▸ hE.deref h b
    exact hE.trans hv (hE.trans (hE.var hid.symm) (hE.symm hb'))
  bind env v b w hw hn _ h := by
    have henv : env.HoldsIn E := h.of_assign hn
    have hv : E (.var v) (.var w) := hw ▸ hE.deref henv (.var v)
    have hnew : E (.var w) (env.deref b) := h w _ (Bindings.find?_assign_self _ rfl)
    exact ⟨henv, hE.trans hv (hE.trans hnew (hE.symm (hE.deref henv b)))⟩
  resolved env v b a env' hd _ ih h := by
    obtain ⟨henv, hab⟩ := ih h
    exact ⟨henv, hE.trans (hd ▸ hE.deref henv (.var v)) hab⟩
  swapped env a w env' _ ih h := by
    obtain ⟨henv, hab⟩ := ih h
    exact ⟨henv, hE.symm hab⟩
  atoms env a h := ⟨h, hE.refl _⟩
  nums env m n hmn h := ⟨h, hE.num hmn⟩
  compounds env f as bs env' hlen ih h := by
    obtain ⟨henv, hargs⟩ := ih h
    refine ⟨henv, hE.compound f (List.forall₂_iff_zip.2 ⟨hlen, fun hp => ?_⟩)⟩
    exact hargs _ hp
  nil env h := ⟨h, fun p hp => nomatch hp⟩
  next env a b pairs env₁ env' ih ihs h := by
    obtain ⟨h₁, hpairs⟩ := ihs h
    obtain ⟨henv, hab⟩ := ih h₁
    exact ⟨henv, List.forall_mem_cons.2 ⟨hab, hpairs⟩⟩

/-- **Unified terms are equal.**  A valuation by trees, finite or infinite, that solves the
bindings of a success solves those that the run started from, and gives the two terms the same tree.
If the bindings have no cycle, the two terms expand to the same term. -/
theorem unify_sound {env env' : Bindings} {a b : Term} {r : Run} (h : unify env a b = some r)
    (hr : r.outcome = some env') :
    (∀ ρ : Valuation, ρ.Solves env' → ρ.Solves env ∧ a.tree ρ = b.tree ρ) ∧
      (env'.Acyclic → (env'.expand a).Same (env'.expand b)) := by
  constructor
  · intro ρ hρ
    exact (soundness ρ.congruence_tree).run h hr hρ
  · -- acyclic bindings hold when terms are compared by their expansions
    intro hA
    have hold : env'.HoldsIn fun t u => (env'.expand t).Same (env'.expand u) := by
      intro v t hv
      rw [Bindings.expand_eq_of_find? hA hv]
      exact Term.Same.refl _
    exact ((soundness env'.congruence_expand).run h hr hold).2

/-- A variable met twice, the second time under its own binding: the bindings have a solution, and
no cycle. -/
theorem unify_sound_shared :
    ∃ r env', unify .empty (.compound "f" [.var ⟨"X", 1⟩, .var ⟨"X", 1⟩])
        (.compound "f" [.atom "a", .atom "a"]) = some r ∧ r.outcome = some env' ∧
      (∃ ρ : Valuation, ρ.Solves env' ∧ ρ.Solves .empty ∧
        Term.tree ρ (.compound "f" [.var ⟨"X", 1⟩, .var ⟨"X", 1⟩]) =
          Term.tree ρ (.compound "f" [.atom "a", .atom "a"])) ∧
      env'.Acyclic ∧ (env'.expand (.compound "f" [.var ⟨"X", 1⟩, .var ⟨"X", 1⟩])).Same
        (env'.expand (.compound "f" [.atom "a", .atom "a"])) := by
  have hrun : unify .empty (.compound "f" [.var ⟨"X", 1⟩, .var ⟨"X", 1⟩])
      (.compound "f" [.atom "a", .atom "a"]) =
      some ⟨[.bound ⟨"X", 1⟩ (.atom "a")], some (Bindings.empty.assign ⟨"X", 1⟩ (.atom "a"))⟩ := rfl
  obtain ⟨htree, hexpand⟩ := unify_sound hrun rfl
  have hfind : ∀ v t, (Bindings.empty.assign ⟨"X", 1⟩ (.atom "a")).find? v = some t →
      t = .atom "a" := by
    intro v t hv
    have hmem := (Dictionary.mem_entries_iff _ v.id t).2 hv
    exact (Prod.mk.inj (List.mem_singleton.1 hmem)).2
  have hsol : Valuation.Solves (fun _ => .atom "a") (.assign .empty ⟨"X", 1⟩ (.atom "a")) :=
    fun v t hv => hfind v t hv ▸ rfl
  have hacyclic : Bindings.Acyclic (.assign .empty ⟨"X", 1⟩ (.atom "a")) := by
    refine Bindings.acyclic_of_lt (fun _ => 0) ?_
    rintro i j ⟨t, ht, w, hw, -⟩
    rw [hfind ⟨"", i⟩ t ht] at hw
    exact nomatch hw
  exact ⟨_, _, hrun, rfl, ⟨_, hsol, htree _ hsol⟩, hacyclic, hexpand hacyclic⟩

end Unification

end LogicTerms
