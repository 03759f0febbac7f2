/-
**Pairs of terms as compounds.**

Unifying pairs one after the other is what two compounds hand over to, so the runs of pairs are the
runs of compounds with the terms of the pairs as arguments.  What is known of runs of two terms is
thereby known of runs of pairs.  Only the depth is in the way: pairs that are unified on their own
take each the depth that it needs, and those of compounds share one.

Main results:

* `Unification.exists_unifyPairs_within` — pairs share the greatest depth that one of them needs;
* `Unification.unifyPairs_unify_iff` — **runs of pairs are runs of compounds**.
-/

import LogicTerms.Proofs.Unification.Depth

set_option relaxedAutoImplicit false
set_option autoImplicit false

namespace LogicTerms.Unification

/-- The run of a pair goes on with the others within the greater depth. -/
theorem unifyPairs_cons_max {depth depth' : ℕ} {env env' : Bindings} {a b : Term}
    {pairs : List (Term × Term)} {events : List Event} {r : Run}
    (h : unifyWithin depth env a b = some ⟨events, some env'⟩)
    (hpairs : unifyPairs (unifyWithin depth') env' pairs = some r) :
    unifyPairs (unifyWithin (max depth depth')) env ((a, b) :: pairs) =
      some (r.after events) := by
  have hmax : unifyPairs (unifyWithin (max depth depth')) env' pairs = some r :=
    unifyPairs_mono (fun _ _ _ _ => unifyWithin_mono (le_max_right depth depth')) hpairs
  rw [unifyPairs, unifyWithin_mono (le_max_left depth depth') h]
  exact Option.map_eq_some_iff.2 ⟨r, hmax, rfl⟩

/-- Pairs share the greatest depth that one of them needs. -/
theorem exists_unifyPairs_within {step : Bindings → Term → Term → Option Run}
    (hstep : ∀ env a b r, step env a b = some r → ∃ depth, unifyWithin depth env a b = some r)
    {env : Bindings} {pairs : List (Term × Term)} {r : Run}
    (h : unifyPairs step env pairs = some r) :
    ∃ depth, unifyPairs (unifyWithin depth) env pairs = some r := by
  induction pairs generalizing env r with
  | nil => exact ⟨0, h⟩
  | cons p pairs ih =>
      obtain ⟨a, b⟩ := p
      rw [unifyPairs] at h
      cases hs : step env a b with
      | none =>
          rw [hs] at h
          cases h
      | some s =>
          rw [hs] at h
          obtain ⟨depth, hd⟩ := hstep env a b s hs
          obtain ⟨events, _ | env'⟩ := s
          · refine ⟨depth, ?_⟩
            rw [unifyPairs, hd]
            exact h
          · obtain ⟨r', hr', rfl⟩ := Option.map_eq_some_iff.1 h
            obtain ⟨depth', hd'⟩ := ih hr'
            exact ⟨max depth depth', unifyPairs_cons_max hd hd'⟩

/-- **Runs of pairs are runs of compounds** of any functor with the terms of the pairs as
arguments. -/
theorem unifyPairs_unify_iff (f : String) {env : Bindings} {pairs : List (Term × Term)} {r : Run} :
    unifyPairs unify env pairs = some r ↔
      unify env (.compound f (pairs.map Prod.fst)) (.compound f (pairs.map Prod.snd)) =
        some r := by
  have hlen : (pairs.map Prod.fst).length = (pairs.map Prod.snd).length := by simp
  have hzip : (pairs.map Prod.fst).zip (pairs.map Prod.snd) = pairs :=
    (List.zip_of_prod rfl rfl).symm
  have hstep : ∀ depth, unifyWithin (depth + 1) env (.compound f (pairs.map Prod.fst))
      (.compound f (pairs.map Prod.snd)) = unifyPairs (unifyWithin depth) env pairs := by
    intro depth
    rw [unifyWithin_compounds depth f hlen, hzip]
  rw [unify_eq_some_iff]
  constructor
  · intro h
    obtain ⟨depth, hd⟩ := exists_unifyPairs_within (fun _ _ _ _ h => ⟨_, h⟩) h
    exact ⟨depth + 1, (hstep depth).trans hd⟩
  · rintro ⟨_ | depth, hd⟩
    · exact nomatch hd
    · rw [hstep] at hd
      exact unifyPairs_mono (fun _ _ _ _ h => unify_eq_some_iff.2 ⟨depth, h⟩) hd

end LogicTerms.Unification
