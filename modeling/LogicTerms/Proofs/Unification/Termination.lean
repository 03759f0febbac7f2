/-
**An end of unification.**

With an occurs check unification always ends, if bindings have no cycle to begin with: an extension
of the bindings leaves fewer variables that can be bound, and under the same bindings the expansions
of the two terms get smaller from compounds to their arguments.  So a run without an occurs check
ends as well, if it never binds a variable to a term in which it occurs; and it never does if one of
the two terms is ground, expanded, since then that is so of every state of the run.

Main definitions:

* `Unification.bindable` — the variables that can still be bound;
* `Unification.weight` — what gets smaller along a run.

Main results:

* `Unification.eq_or_card_bindable_lt` — new bindings leave fewer variables;
* `Unification.exists_checked` — **unification with an occurs check ends**;
* `Unification.not_makesCycle_of_grounded` — a ground term keeps a run from cycles;
* `Unification.unify_terminates` — **a run that makes no cycle ends**, as with an occurs check.
-/

import LogicTerms.Proofs.Unification.Completeness
import LogicTerms.Proofs.Unification.OccursCheck

set_option relaxedAutoImplicit false
set_option autoImplicit false

namespace LogicTerms.Unification

open Bindings (Extends)
open Relation

variable {env env' : Bindings} {a b : Term}

/-! ### An end with an occurs check -/

/-- The variables of the terms that can still be bound. -/
def bindable (S : Finset Term) (env : Bindings) : Finset UInt64 := S.image idOf \ env.boundIds

/-- Bindings made within the terms are none, or leave fewer variables that can be bound. -/
theorem eq_or_card_bindable_lt {S : Finset Term} (h : Extends (· ∈ S) env env') :
    env' = env ∨ (bindable S env').card < (bindable S env).card := by
  cases h with
  | refl => exact .inl rfl
  | @bind env' w u h hw hS _ _ =>
      have hold : w.id ∈ bindable S env := by
        refine Finset.mem_sdiff.2 ⟨Finset.mem_image.2 ⟨_, hS, rfl⟩, fun hmem => ?_⟩
        obtain ⟨t, ht⟩ := Bindings.mem_boundIds_iff.1 hmem
        have ht' := h.find?_eq (v := w) ht
        rw [hw] at ht'
        exact nomatch ht'
      have hnew : w.id ∉ bindable S (env'.assign w (env'.deref u)) := fun hmem =>
        (Finset.mem_sdiff.1 hmem).2
          (Bindings.mem_boundIds_iff.2 ⟨_, Bindings.find?_assign_self (w := w) _ rfl⟩)
      have hext : Extends (· ∈ S) env (env'.assign w (env'.deref u)) := .bind h hw hS ‹_› ‹_›
      have hsub : bindable S (env'.assign w (env'.deref u)) ⊆ bindable S env := by
        refine Finset.sdiff_subset_sdiff (Finset.Subset.refl _) fun i hi => ?_
        obtain ⟨t, ht⟩ := Bindings.mem_boundIds_iff.1 hi
        exact Bindings.mem_boundIds_iff.2 ⟨t, hext.find?_eq (v := ⟨"", i⟩) ht⟩
      exact .inr (Finset.card_lt_card ((Finset.ssubset_iff_of_subset hsub).2 ⟨_, hold, hnew⟩))

/-- There is a verdict on pairs if there is one on each of them, under whatever bindings the pairs
before leave. -/
theorem exists_checkedPairs {P : Term → Prop} {pairs : List (Term × Term)}
    (hpairs : ∀ p ∈ pairs, P p.1 ∧ P p.2)
    (hrun : ∀ p ∈ pairs, ∀ {env' : Bindings}, env'.Acyclic → Extends P env env' →
      ∃ depth v, checkedWithin depth env' p.1 p.2 = some v)
    (hA : env'.Acyclic) (hP : env.Closed P) (hext : Extends P env env') :
    ∃ depth v, checkedPairs (checkedWithin depth) env' pairs = some v := by
  induction pairs generalizing env' with
  | nil => exact ⟨0, _, rfl⟩
  | cons p pairs ih =>
      obtain ⟨a, b⟩ := p
      obtain ⟨depth, v, hv⟩ := hrun _ List.mem_cons_self hA hext
      have hfits := checkedWithin_fits hv hA
      cases v with
      | success env₁ =>
          obtain ⟨hA₁, events, hr⟩ := hfits
          have hab := hpairs _ List.mem_cons_self
          have hext₁ := outcome_extends hr rfl (hext.closed hP) hab.1 hab.2
          obtain ⟨depth', v', hv'⟩ := ih (fun q hq => hpairs q (List.mem_cons_of_mem _ hq))
            (fun q hq => hrun q (List.mem_cons_of_mem _ hq)) hA₁ (hext.trans hext₁)
          refine ⟨max depth depth', v', ?_⟩
          rw [checkedPairs, checkedWithin_mono (le_max_left depth depth') hv]
          exact checkedPairs_mono (fun _ _ _ _ => checkedWithin_mono (le_max_right depth depth')) hv'
      | clash => exact ⟨depth, .clash, by rw [checkedPairs, hv]⟩
      | occurs => exact ⟨depth, .occurs, by rw [checkedPairs, hv]⟩

/-- The expansions of arguments are smaller than that of their compound. -/
theorem termSize_expand_lt (env : Bindings) (f : String) {args : List Term} (ha : a ∈ args) :
    termSize (env.expand a) < termSize (env.expand (.compound f args)) := by
  rw [Bindings.expand_compound]
  exact Term.termSize_lt_of_mem (List.mem_map_of_mem ha)

/-- What gets smaller along a run within the terms: the number of variables that can be bound, then
the sizes of the expansions, then the turns that are left. -/
def weight (S : Finset Term) (env : Bindings) (a b : Term) : ℕ ×ₗ ℕ :=
  toLex ((bindable S env).card,
    4 * (termSize (env.expand a) + termSize (env.expand b)) + turns a b)

theorem weight_resolved_lt {S : Finset Term} (hA : env.Acyclic) {v : Variable}
    (hd : env.deref (.var v) = a) (ha : a.isVariable = false) (b : Term) :
    weight S env a b < weight S env (.var v) b := by
  have hexpand : env.expand a = env.expand (.var v) := by rw [← hd, Bindings.expand_deref hA]
  have hturns : turns a b < turns (.var v) b := by
    rw [turns, turns, ha]
    simp [Term.isVariable]
  refine Prod.Lex.toLex_lt_toLex.2 (.inr ⟨rfl, ?_⟩)
  simp only [hexpand]
  omega

theorem weight_swapped_lt {S : Finset Term} (ha : a.isVariable = false) (w : Variable) :
    weight S env (.var w) a < weight S env a (.var w) := by
  have hturns : turns (.var w) a < turns a (.var w) := by
    rw [turns, turns, ha]
    simp [Term.isVariable]
  refine Prod.Lex.toLex_lt_toLex.2 (.inr ⟨rfl, ?_⟩)
  simp only
  omega

/-- The expansions of arguments are smaller, and new bindings leave fewer variables. -/
theorem weight_argument_lt {S : Finset Term} (hext : Extends (· ∈ S) env env') {f : String}
    {as bs : List Term} (ha : a ∈ as) (hb : b ∈ bs) :
    weight S env' a b < weight S env (.compound f as) (.compound f bs) := by
  obtain rfl | hlt := eq_or_card_bindable_lt hext
  · have hl := termSize_expand_lt env' f ha
    have hr := termSize_expand_lt env' f hb
    have hturns := turns_lt a b
    refine Prod.Lex.toLex_lt_toLex.2 (.inr ⟨rfl, ?_⟩)
    simp only
    omega
  · exact Prod.Lex.toLex_lt_toLex.2 (.inl hlt)

/-- There is a verdict on terms of a finite class that is closed under arguments and values. -/
theorem exists_checked_within {S : Finset Term} (hA : env.Acyclic) (hS : env.Closed (· ∈ S))
    (ha : a ∈ S) (hb : b ∈ S) : ∃ depth v, checkedWithin depth env a b = some v := by
  induction hn : weight S env a b using WellFoundedLT.induction generalizing env a b with
  | _ n ih =>
      subst hn
      cases situation env a b with
      | unbound hd => exact ⟨1, _, checkedWithin_unbound 0 hd b⟩
      | @resolved v c b hd hv =>
          have hc : c ∈ S := hd ▸ hS.deref ha
          obtain ⟨depth, u, hu⟩ := ih _ (weight_resolved_lt hA hd hv b) hA hS hc hb rfl
          exact ⟨depth + 1, u, (checkedWithin_resolved depth hd hv b).trans hu⟩
      | @swapped a w hv =>
          obtain ⟨depth, u, hu⟩ := ih _ (weight_swapped_lt hv w) hA hS hb ha rfl
          exact ⟨depth + 1, u, (checkedWithin_swapped depth hv w).trans hu⟩
      | atoms a => exact ⟨1, _, checkedWithin_atoms 0 a⟩
      | nums hmn => exact ⟨1, _, checkedWithin_nums 0 hmn⟩
      | @compounds f as bs hlen =>
          have hpairs : ∀ p ∈ as.zip bs, p.1 ∈ S ∧ p.2 ∈ S := fun p hp =>
            have hm := List.of_mem_zip (a := p.1) (b := p.2) hp
            ⟨hS.args f as ha _ hm.1, hS.args f bs hb _ hm.2⟩
          have hrun : ∀ p ∈ as.zip bs, ∀ {env' : Bindings}, env'.Acyclic →
              Extends (· ∈ S) env env' → ∃ depth v, checkedWithin depth env' p.1 p.2 = some v := by
            intro p hp env' hA' hext
            have hm := List.of_mem_zip (a := p.1) (b := p.2) hp
            exact ih _ (weight_argument_lt hext hm.1 hm.2) hA' (hext.closed hS) (hpairs p hp).1
              (hpairs p hp).2 rfl
          obtain ⟨depth, v, hv⟩ := exists_checkedPairs hpairs hrun hA hS .refl
          exact ⟨depth + 1, v, (checkedWithin_compounds depth f hlen).trans hv⟩
      | clash hl hr hclash => exact ⟨1, _, checkedWithin_clash 0 env hl hr hclash⟩

/-- **Unification with an occurs check ends**, under bindings without a cycle. -/
theorem exists_checked (hA : env.Acyclic) (a b : Term) :
    ∃ depth v, checkedWithin depth env a b = some v :=
  exists_checked_within hA (closed_places env a b) (left_mem_places env a b)
    (right_mem_places env a b)

/-! ### Ground terms -/

/-- What a state calls has a grounded term if the state has one. -/
theorem Calls.grounded {s s' : State} (h : Calls s s') (hc : s.env.NoAliasCycle)
    (hs : s.env.Grounded s.left ∨ s.env.Grounded s.right) :
    s'.env.Grounded s'.left ∨ s'.env.Grounded s'.right := by
  have hext := (h.extends (Bindings.closed_true s.env) trivial trivial).1
  cases h with
  | resolved b hd _ => exact hs.imp_left fun h => hd ▸ h.deref hc
  | swapped w _ => exact hs.symm
  | @argument env env' depth f as bs a b ps qs events _ hz _ =>
      have hp : (a, b) ∈ as.zip bs := hz ▸ List.mem_append_right _ List.mem_cons_self
      have hm := List.of_mem_zip hp
      exact hs.imp (fun h => (h.arg hm.1).mono hext) fun h => (h.arg hm.2).mono hext

/-- **A ground term keeps a run from cycles.** -/
theorem not_makesCycle_of_grounded {s : State} (hc : s.env.NoAliasCycle)
    (hs : s.env.Grounded s.left ∨ s.env.Grounded s.right) : ¬ MakesCycle s := by
  rintro ⟨s', w, t, hcalls, hbinds, hocc⟩
  have hstate : s'.env.NoAliasCycle ∧ (s'.env.Grounded s'.left ∨ s'.env.Grounded s'.right) := by
    clear hbinds hocc
    induction hcalls with
    | refl => exact ⟨hc, hs⟩
    | tail _ hcall ih =>
        obtain ⟨hc', hs'⟩ := ih
        have hext := (hcall.extends (Bindings.closed_true _) trivial trivial).1
        exact ⟨hext.noAliasCycle hc', hcall.grounded hc' hs'⟩
  obtain ⟨hc', hs'⟩ := hstate
  cases hbinds with
  | intro hw _ =>
      have hunbound := Bindings.settled_var_iff.1 (hw ▸ Bindings.settled_deref hc' _)
      obtain hl | hr := hs'
      · exact hl.deref_ne hc' w hw
      · exact (hr.deref hc').not_mentions_expand hc' hunbound hocc

/-! ### Runs that make no cycle -/

/-- **A run that makes no cycle ends**, and finds what unification with an occurs check finds, which
always ends with one verdict.  This verdict is that there is an occurrence exactly if the run binds
a variable to a term in which it occurs.  In particular a run ends if one of the terms is ground,
expanded. -/
theorem unify_terminates (hA : env.Acyclic) (a b : Term) :
    (∃! v, ∃ depth, checkedWithin depth env a b = some v) ∧
      ((∃ depth, checkedWithin depth env a b = some .occurs) ↔
        ∃ s w t, ReflTransGen Calls ⟨env, a, b⟩ s ∧ s.Binds w t ∧
          (s.env.expand t).Mentions w.id) ∧
      ((∀ s w t, ReflTransGen Calls ⟨env, a, b⟩ s → s.Binds w t →
          ¬ (s.env.expand t).Mentions w.id) →
        ∃ r, unify env a b = some r ∧ ∃ depth, checkedWithin depth env a b = some r.verdict) ∧
      ((env.expand a).isGround = true ∨ (env.expand b).isGround = true →
        ∃ r, unify env a b = some r ∧ ∃ depth, checkedWithin depth env a b = some r.verdict) := by
  obtain ⟨depth, v, hv⟩ := exists_checked hA a b
  have hrun : ¬ MakesCycle ⟨env, a, b⟩ →
      ∃ r, unify env a b = some r ∧ ∃ depth, checkedWithin depth env a b = some r.verdict := by
    intro hno
    obtain ⟨r, hr, rfl⟩ := (checkedWithin_fits hv hA).exists_run hno
    exact ⟨r, unify_eq_some_iff.2 ⟨depth, hr⟩, depth, hv⟩
  refine ⟨⟨v, ⟨depth, hv⟩, fun v' ⟨_, hv'⟩ => verdict_unique hv' hv⟩, ⟨?_, ?_⟩,
    fun hno => hrun ?_, fun hground => hrun ?_⟩
  · rintro ⟨depth, hocc⟩
    exact checkedWithin_fits hocc hA
  · intro hcycle
    exact ⟨depth, hv.trans (congrArg some (occurs_of_makesCycle hcycle hA hv))⟩
  · rintro ⟨s, w, t, hcalls, hbinds, hocc⟩
    exact hno s w t hcalls hbinds hocc
  · exact not_makesCycle_of_grounded hA.noAliasCycle
      (hground.imp (Bindings.grounded_of_isGround_expand hA)
        (Bindings.grounded_of_isGround_expand hA))

/-- A clash after a binding, of terms that are not ground; and an occurrence in a value that is bound
to another variable before. -/
theorem unify_terminates_clash :
    (∃ r, unify (.assign .empty ⟨"Y", 2⟩ (.compound "g" [.var ⟨"Z", 3⟩]))
        (.compound "f" [.var ⟨"X", 1⟩, .atom "c"]) (.compound "f" [.var ⟨"Y", 2⟩, .atom "d"]) =
          some r ∧ r.verdict = .clash) ∧
      ∃ s w t, ReflTransGen Calls ⟨.assign .empty ⟨"Y", 2⟩ (.compound "g" [.var ⟨"Z", 3⟩]),
          .compound "f" [.var ⟨"X", 1⟩, .var ⟨"Z", 3⟩],
          .compound "f" [.var ⟨"Y", 2⟩, .compound "h" [.var ⟨"X", 1⟩]]⟩ s ∧ s.Binds w t ∧
        (s.env.expand t).Mentions w.id := by
  have hA : Bindings.Acyclic (.assign .empty ⟨"Y", 2⟩ (.compound "g" [.var ⟨"Z", 3⟩])) := by
    refine Bindings.Acyclic.assign (fun i hi => ?_) rfl ?_
    · obtain ⟨j, ⟨u, hu, -⟩, -⟩ := TransGen.head'_iff.1 hi
      exact nomatch hu
    · exact mt occursIn_iff.2 (by decide)
  obtain ⟨⟨v, -, hunique⟩, hocc, hends, -⟩ := unify_terminates hA
    (.compound "f" [.var ⟨"X", 1⟩, .atom "c"]) (.compound "f" [.var ⟨"Y", 2⟩, .atom "d"])
  have hclash : Verdict.clash = v := hunique _ ⟨2, rfl⟩
  obtain ⟨r, hr, depth, hverdict⟩ := hends fun s w t hcalls hbinds hmentions => by
    obtain ⟨depth, hv⟩ := hocc.2 ⟨s, w, t, hcalls, hbinds, hmentions⟩
    exact nomatch hclash.trans (hunique _ ⟨depth, hv⟩).symm
  obtain ⟨-, hocc', -⟩ := unify_terminates hA
    (.compound "f" [.var ⟨"X", 1⟩, .var ⟨"Z", 3⟩])
    (.compound "f" [.var ⟨"Y", 2⟩, .compound "h" [.var ⟨"X", 1⟩]])
  exact ⟨⟨r, hr, (hunique _ ⟨depth, hverdict⟩).trans hclash.symm⟩, hocc'.1 ⟨2, rfl⟩⟩

end LogicTerms.Unification
