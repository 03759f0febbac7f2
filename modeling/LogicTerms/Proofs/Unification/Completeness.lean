/-
**Terms with a common solution are unified.**

If two terms can be made equal while the bindings hold, then no run of unification fails on them,
and the bindings that it ends with still hold.  This is so for every matching.  A solution by
finite trees does more: it bounds the run.  A step that resolves a variable or changes sides leaves
the tree of the left term as it is and can be taken three times at most, and the step from
compounds to their arguments makes that tree smaller.

Main definitions:

* `Unification.turns` — how often a variable can still be resolved or change sides.

Main results:

* `Unification.completeness` — a run of terms that match succeeds, and the bindings hold;
* `Unification.exists_run` — **a run of terms with a common solution ends**;
* `Unification.unify_complete` — **terms with a common solution are unified**, and all that solves
  the bindings and equates the terms solves the bindings of the success.
-/

import LogicTerms.Proofs.Term.FiniteValuation
import LogicTerms.Proofs.Unification.Pairs

set_option relaxedAutoImplicit false
set_option autoImplicit false

namespace LogicTerms.Unification

/-! ### Success -/

/-- **Terms that match are unified** by every run that ends, and what held still holds. -/
theorem completeness {E : Term → Term → Prop} (hE : Term.Matching E) {depth : ℕ} {env : Bindings}
    {a b : Term} {r : Run} (h : unifyWithin depth env a b = some r) (hc : env.NoAliasCycle)
    (hs : env.HoldsIn E) (hab : E a b) :
    ∃ env', r.outcome = some env' ∧ env'.NoAliasCycle ∧ env'.HoldsIn E := by
  refine run_induction
    (fun env a b r => env.NoAliasCycle → env.HoldsIn E → E a b →
      ∃ env', r.outcome = some env' ∧ env'.NoAliasCycle ∧ env'.HoldsIn E)
    (fun env pairs r => env.NoAliasCycle → env.HoldsIn E →
      (∀ p ∈ pairs, E p.1 p.2) →
      ∃ env', r.outcome = some env' ∧ env'.NoAliasCycle ∧ env'.HoldsIn E)
    ?_ ?_ ?_ ?_ ?_ ?_ ?_ ?_ ?_ ?_ h hc hs hab
  · -- what the two sides stand for is related, so that a new binding holds
    intro env v b w hw hc hs hab
    have hwb : E (.var w) (env.deref b) := hE.deref_right hs (hw ▸ hE.deref_left hs hab)
    have hn : env.find? w = none := Bindings.settled_var_iff.1 (hw ▸ Bindings.settled_deref hc _)
    obtain ⟨env', hr⟩ := exists_unifyUnbound_outcome hn (env.deref b)
    refine ⟨env', hr, ?_⟩
    obtain ⟨rfl, -⟩ | ⟨-, hne, rfl⟩ := unifyUnbound_outcome hr
    · exact ⟨hc, hs⟩
    · refine ⟨hc.assign hn fun x hx => hne x ?_, hs.assign fun x hx => hE.var hx.symm hwb⟩
      rwa [Bindings.deref_deref hc] at hx
  · intro env v b a r hd _ ih hc hs hab
    exact ih hc hs (hd ▸ hE.deref_left hs hab)
  · intro env a w r _ ih hc hs hab
    exact ih hc hs (hE.symm hab)
  · intro env a hc hs _
    exact ⟨env, rfl, hc, hs⟩
  · intro env m n _ hc hs _
    exact ⟨env, rfl, hc, hs⟩
  · intro env f as bs r _ ih hc hs hab
    exact ih hc hs (hE.zip hab)
  · -- terms that match do not clash
    intro env a b e ha hb hclash _ _ _ hab
    exact absurd (hE.head ha hb hab) hclash
  · intro env hc hs _
    exact ⟨env, rfl, hc, hs⟩
  · -- the run of a pair that matches does not fail
    intro env a b pairs events ih hc hs hp
    obtain ⟨env', hr, -⟩ := ih hc hs (hp (a, b) List.mem_cons_self)
    exact nomatch hr
  · intro env a b pairs events env₁ r ih ihs hc hs hp
    obtain ⟨env', hr, hc', hs'⟩ := ih hc hs (hp (a, b) List.mem_cons_self)
    cases hr
    exact ihs hc' hs' fun p hm => hp p (List.mem_cons_of_mem _ hm)

/-! ### An end -/

/-- How often a variable of the two terms can still be resolved or change sides, without a step to
the arguments. -/
def turns (a b : Term) : ℕ :=
  (if b.isVariable then 2 else 0) + if a.isVariable then 1 else 0

theorem turns_lt (a b : Term) : turns a b < 4 := by
  rw [turns]
  split <;> split <;> omega

/-- Pairs that match can be unified within some depth if each of them can, under whatever bindings
hold. -/
theorem exists_run_pairs {E : Term → Term → Prop} (hE : Term.Matching E)
    {pairs : List (Term × Term)} (hpairs : ∀ p ∈ pairs, E p.1 p.2)
    (hrun : ∀ p ∈ pairs, ∀ {env : Bindings}, env.NoAliasCycle → env.HoldsIn E →
      ∃ depth r, unifyWithin depth env p.1 p.2 = some r)
    {env : Bindings} (hc : env.NoAliasCycle) (hs : env.HoldsIn E) :
    ∃ depth r, unifyPairs (unifyWithin depth) env pairs = some r := by
  induction pairs generalizing env with
  | nil => exact ⟨0, _, rfl⟩
  | cons p pairs ih =>
      obtain ⟨d, r, hr⟩ := hrun p List.mem_cons_self hc hs
      obtain ⟨env', ho, hc', hs'⟩ := completeness hE hr hc hs (hpairs p List.mem_cons_self)
      obtain ⟨d', r', hr'⟩ := ih (fun q hq => hpairs q (List.mem_cons_of_mem p hq))
        (fun q hq => hrun q (List.mem_cons_of_mem p hq)) hc' hs'
      obtain ⟨events, outcome⟩ := r
      cases ho
      exact ⟨max d d', _, unifyPairs_cons_max hr hr'⟩

/-- **A run of terms with a common solution ends.** -/
theorem exists_run {σ : FiniteValuation} {env : Bindings} {a b : Term} (hc : env.NoAliasCycle)
    (hs : σ.Solves env) (hab : σ.Equates a b) :
    ∃ depth r, unifyWithin depth env a b = some r := by
  -- on the size of the tree of the left term, and then on the turns that are left
  induction hn : 4 * termSize (a.under σ) + turns a b using Nat.strong_induction_on
    generalizing env a b with
  | _ n ih =>
      cases situation env a b with
      | unbound hd => exact ⟨1, _, unifyWithin_unbound 0 hd b⟩
      | @resolved v c b hd hv =>
          have hcb : σ.Equates c b := hd ▸ σ.matching.deref_left hs hab
          have hsize := (hab.trans hcb.symm).termSize_eq
          have hturns : turns c b < turns (.var v) b := by
            rw [turns, turns, hv]
            simp [Term.isVariable]
          obtain ⟨depth, r, hr⟩ := ih _ (by omega) hc hs hcb rfl
          exact ⟨depth + 1, r, (unifyWithin_resolved depth hd hv b).trans hr⟩
      | @swapped a w ha =>
          have hsize := hab.termSize_eq
          have hturns : turns (.var w) a < turns a (.var w) := by
            rw [turns, turns, ha]
            simp [Term.isVariable]
          obtain ⟨depth, r, hr⟩ := ih _ (by omega) hc hs hab.symm rfl
          exact ⟨depth + 1, r, (unifyWithin_swapped depth ha w).trans hr⟩
      | atoms a => exact ⟨1, _, unifyWithin_atoms 0 a⟩
      | nums hmn => exact ⟨1, _, unifyWithin_nums 0 hmn⟩
      | @compounds f as bs hlen =>
          -- the trees of arguments are smaller, which leaves room for any number of turns
          have hargs := σ.matching.zip hab
          have hrun : ∀ p ∈ as.zip bs, ∀ {env : Bindings}, env.NoAliasCycle → σ.Solves env →
              ∃ depth r, unifyWithin depth env p.1 p.2 = some r := by
            intro p hp env hc hs
            have hlt : termSize (p.1.under σ) < termSize ((Term.compound f as).under σ) := by
              rw [Term.under_compound]
              exact Term.termSize_lt_of_mem (List.mem_map_of_mem (List.of_mem_zip hp).1)
            have hturns := turns_lt p.1 p.2
            exact ih _ (by omega) hc hs (hargs p hp) rfl
          obtain ⟨depth, r, hr⟩ := exists_run_pairs σ.matching hargs hrun hc hs
          exact ⟨depth + 1, r, (unifyWithin_compounds depth f hlen).trans hr⟩
      | clash ha hb hclash =>
          obtain ⟨e, -, hr⟩ := unifyWithin_clash 0 env ha hb hclash
          exact ⟨1, _, hr⟩

/-! ### Completeness -/

/-- **Terms with a common solution are unified.**  If some valuation by finite trees solves the
bindings and equates the terms, unification ends with bindings without a cycle, which every such
valuation solves.  So it fails only if there is none. -/
theorem unify_complete {env : Bindings} (hc : env.NoAliasCycle) (a b : Term) :
    ((∃ σ : FiniteValuation, σ.Solves env ∧ σ.Equates a b) →
      ∃ r env', unify env a b = some r ∧ r.outcome = some env' ∧ env'.Acyclic ∧
        ∀ σ : FiniteValuation, σ.Solves env → σ.Equates a b → σ.Solves env') ∧
    ∀ r, unify env a b = some r → r.outcome = none →
      ¬ ∃ σ : FiniteValuation, σ.Solves env ∧ σ.Equates a b := by
  constructor
  · rintro ⟨σ, hs, hab⟩
    obtain ⟨r, hr⟩ : ∃ r, unify env a b = some r := by
      obtain ⟨depth, r, hr⟩ := exists_run hc hs hab
      exact ⟨r, unify_eq_some_iff.2 ⟨depth, hr⟩⟩
    obtain ⟨env', ho, hc', hs'⟩ := completeness σ.matching hr hc hs hab
    -- one solution is enough for the run to end; it is a run for every other one too
    refine ⟨r, env', hr, ho, FiniteValuation.Solves.acyclic hs' hc', fun τ hτ hτab => ?_⟩
    obtain ⟨env'', ho', -, hs''⟩ := completeness τ.matching hr hc hτ hτab
    rw [ho] at ho'
    exact Option.some.inj ho' ▸ hs''
  · rintro r hr ho ⟨σ, hs, hab⟩
    obtain ⟨env', ho', -⟩ := completeness σ.matching hr hc hs hab
    rw [ho] at ho'
    exact nomatch ho'

/-- A variable that stands for another is unified with a compound of a third. -/
theorem unify_complete_alias :
    ∃ r env', unify (.assign .empty ⟨"X", 1⟩ (.var ⟨"Y", 2⟩)) (.var ⟨"X", 1⟩)
        (.compound "f" [.var ⟨"Z", 3⟩]) = some r ∧ r.outcome = some env' ∧ env'.Acyclic ∧
      FiniteValuation.Solves (fun i => if i = 3 then .atom "c" else .compound "f" [.atom "c"])
        env' := by
  have hc : Bindings.NoAliasCycle (.assign .empty ⟨"X", 1⟩ (.var ⟨"Y", 2⟩)) := by
    refine Bindings.noAliasCycle_empty.assign rfl ?_
    rintro w ⟨⟩
    decide
  have hs : FiniteValuation.Solves
      (fun i => if i = 3 then .atom "c" else .compound "f" [.atom "c"])
      (.assign .empty ⟨"X", 1⟩ (.var ⟨"Y", 2⟩)) := by
    refine Bindings.HoldsIn.assign (fun v t hv => nomatch hv) fun w hw => ?_
    rw [FiniteValuation.Equates, Term.under_var, hw]
    rfl
  have hab : FiniteValuation.Equates
      (fun i => if i = 3 then .atom "c" else .compound "f" [.atom "c"])
      (.var ⟨"X", 1⟩) (.compound "f" [.var ⟨"Z", 3⟩]) := rfl
  obtain ⟨r, env', hr, ho, hA, hgeneral⟩ := (unify_complete hc _ _).1 ⟨_, hs, hab⟩
  exact ⟨r, env', hr, ho, hA, hgeneral _ hs hab⟩

end LogicTerms.Unification
