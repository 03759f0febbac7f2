/-
**Unifying again.**

Once two terms have been unified, there is nothing left to do for them: they expand to equal terms,
and under more bindings they still do.  A run on such terms binds nothing, although it may be
nothing like the run that unified them, since variables are now followed to other ends, and compounds
are compared that were not there before.  Where the left side stands for an unbound variable, the
right side stands for the same one; elsewhere equal expansions have equal heads, and the expansions
of the arguments are equal and smaller.

Main definitions:

* `Bindings.Agree` — two terms expand to equal terms.

Main results:

* `Bindings.matching_agree` — agreeing is a matching;
* `Bindings.Agree.exists_deref_eq` — what agrees with an unbound variable stands for it;
* `Unification.exists_idle_run` — **terms that agree are unified without a binding**;
* `Unification.unify_again` — **unified terms are unified again without a binding**, under all
  bindings that contain those of the success, and from either side.
-/

import LogicTerms.Proofs.Bindings.Refinement
import LogicTerms.Proofs.Unification.Arrangement
import LogicTerms.Proofs.Unification.Termination

set_option relaxedAutoImplicit false
set_option autoImplicit false

namespace LogicTerms

/-! ### Expansions without a NaN -/

/-- Having no NaN goes up. -/
theorem Term.precongruence_ordered : Precongruence fun t u => t.Ordered → u.Ordered where
  refl _ h := h
  trans h h' ho := h' (h ho)
  compound f as bs h := by
    rw [ordered_compound_iff, ordered_compound_iff]
    induction h with
    | nil => exact id
    | cons h _ ih =>
        rw [List.forall_mem_cons, List.forall_mem_cons]
        exact And.imp h ih

namespace Bindings

variable {env : Bindings} {t u : Term}

theorem ordered_empty : empty.Ordered := fun _ _ h => nomatch h

theorem Ordered.assign (ho : env.Ordered) (v : Variable) (ht : t.Ordered) :
    (env.assign v t).Ordered :=
  HoldsIn.assign (E := fun _ u => u.Ordered) ho fun _ _ => ht

theorem Ordered.expand (ho : env.Ordered) (ht : t.Ordered) : (env.expand t).Ordered :=
  Term.precongruence_ordered.expand (fun v u hv _ => ho v u hv) t ht

/-! ### Terms that agree -/

/-- The terms expand to equal terms. -/
def Agree (env : Bindings) (t u : Term) : Prop := (env.expand t).equal (env.expand u) = true

/-- **Agreeing is a matching.** -/
theorem matching_agree (env : Bindings) : Term.Matching env.Agree :=
  Term.matching_subst fun h => expand_var_same h

theorem Agree.deref_left (hA : env.Acyclic) (h : env.Agree t u) : env.Agree (env.deref t) u := by
  rwa [Agree, expand_deref hA]

/-- What agrees with an unbound variable stands for it. -/
theorem Agree.exists_deref_eq (hA : env.Acyclic) {v : Variable} (hv : env.find? v = none)
    (h : env.Agree (.var v) t) : ∃ w, env.deref t = .var w ∧ w.id = v.id := by
  have hs := settled_deref hA.noAliasCycle t
  rw [Agree, expand_of_unbound hv, ← expand_deref hA t] at h
  cases hd : env.deref t with
  | var w =>
      rw [hd] at h hs
      rw [expand_of_unbound (settled_var_iff.1 hs)] at h
      exact ⟨w, rfl, (beq_iff_eq.1 h).symm⟩
  | _ =>
      rw [hd] at h
      exact nomatch h

end Bindings

namespace Unification

variable {env env' : Bindings} {a b : Term}

/-! ### Runs that bind nothing -/

/-- Pairs are unified without a binding if each of them is. -/
theorem exists_idle_pairs {pairs : List (Term × Term)}
    (h : ∀ p ∈ pairs, ∃ depth, unifyWithin depth env p.1 p.2 = some (.ok env)) :
    ∃ depth, unifyPairs (unifyWithin depth) env pairs = some (.ok env) := by
  induction pairs with
  | nil => exact ⟨0, rfl⟩
  | cons p pairs ih =>
      obtain ⟨depth, hd⟩ := h p List.mem_cons_self
      obtain ⟨depth', hd'⟩ := ih fun q hq => h q (List.mem_cons_of_mem p hq)
      exact ⟨max depth depth', unifyPairs_cons_max hd hd'⟩

/-- **Terms that agree are unified without a binding.** -/
theorem exists_idle_run (hA : env.Acyclic) (h : env.Agree a b) :
    ∃ depth, unifyWithin depth env a b = some (.ok env) := by
  -- no variable is bound on the way, so that only sizes and turns have to get smaller
  induction hn : weight ∅ env a b using WellFoundedLT.induction generalizing a b with
  | _ n ih =>
      subst hn
      cases situation env a b with
      | @unbound v w b hd =>
          have hs := Bindings.settled_deref hA.noAliasCycle (.var v)
          rw [hd] at hs
          have hwb : env.Agree (.var w) b := hd ▸ h.deref_left hA
          obtain ⟨x, hx, hid⟩ := hwb.exists_deref_eq hA (Bindings.settled_var_iff.1 hs)
          refine ⟨1, ?_⟩
          rw [unifyWithin_unbound 0 hd, hx, unifyUnbound, if_pos hid]
      | @resolved v c b hd hv =>
          obtain ⟨depth, hr⟩ :=
            ih _ (weight_resolved_lt hA hd hv b) (hd ▸ h.deref_left hA) rfl
          exact ⟨depth + 1, (unifyWithin_resolved depth hd hv b).trans hr⟩
      | @swapped a w hv =>
          obtain ⟨depth, hr⟩ := ih _ (weight_swapped_lt hv w) (env.matching_agree.symm h) rfl
          exact ⟨depth + 1, (unifyWithin_swapped depth hv w).trans hr⟩
      | atoms a => exact ⟨1, unifyWithin_atoms 0 a⟩
      | nums hmn => exact ⟨1, unifyWithin_nums 0 hmn⟩
      | @compounds f as bs hlen =>
          have hpairs : ∀ p ∈ as.zip bs,
              ∃ depth, unifyWithin depth env p.1 p.2 = some (.ok env) := by
            intro p hp
            have hm := List.of_mem_zip (a := p.1) (b := p.2) hp
            exact ih _ (weight_argument_lt .refl hm.1 hm.2) (env.matching_agree.zip h p hp) rfl
          obtain ⟨depth, hr⟩ := exists_idle_pairs hpairs
          exact ⟨depth + 1, (unifyWithin_compounds depth f hlen).trans hr⟩
      | clash ha hb hclash => exact absurd (env.matching_agree.head ha hb h) hclash

theorem unify_of_agree (hA : env.Acyclic) (h : env.Agree a b) :
    unify env a b = some (.ok env) := unify_eq_some_iff.2 (exists_idle_run hA h)

/-! ### Unifying again -/

/-- What has been unified agrees under all bindings that contain those of the success. -/
theorem agree_of_unify {r : Run} (h : unify env a b = some r) (hr : r.outcome = some env')
    (ha : a.Ordered) {more : Bindings} (hmore : more.Contains env') (hA : more.Acyclic)
    (ho : more.Ordered) : more.Agree a b := by
  -- the bindings of the success are among the others, and acyclic bindings hold for expansions
  have hold : env'.HoldsIn fun t u => (more.expand t).Same (more.expand u) :=
    fun v t hv => congrArg Term.canonical (hmore.holdsIn hA v t hv)
  have hsame := ((soundness more.congruence_expand).run h hr hold).2
  exact Term.equal_iff.2 ⟨hsame, ho.expand ha⟩

/-- **Unified terms are unified again without a binding**: under acyclic bindings without a NaN that
contain those of the success, a run ends with the bindings that it started from and has nothing to
record, whichever side the terms are on.  It does not matter which bindings the first run started
from, and one of the terms is without a NaN if the other is. -/
theorem unify_again {r : Run} (h : unify env a b = some r) (hr : r.outcome = some env')
    (ha : a.Ordered) {more : Bindings} (hmore : more.Contains env') (hA : more.Acyclic)
    (ho : more.Ordered) :
    unify more a b = some (.ok more) ∧ unify more b a = some (.ok more) := by
  have hab := agree_of_unify h hr ha hmore hA ho
  exact ⟨unify_of_agree hA hab, unify_of_agree hA (more.matching_agree.symm hab)⟩

/-- The first run binds a variable to another and this one to a compound, and a binding is added of a
variable in the compound: no variable is bound in the second run or stands for what it did. -/
theorem unify_again_extended :
    ∃ r env' more, unify .empty (.compound "f" [.var ⟨"X", 3⟩, .var ⟨"Y", 2⟩])
        (.compound "f" [.var ⟨"Y", 2⟩, .compound "g" [.var ⟨"Z", 1⟩]]) = some r ∧
      r.outcome = some env' ∧ more = env'.assign ⟨"Z", 1⟩ (.num (.int 7)) ∧
      r.events.length = 2 ∧ env'.deref (.var ⟨"Z", 1⟩) = .var ⟨"Z", 1⟩ ∧
      more.deref (.var ⟨"Z", 1⟩) = .num (.int 7) ∧
      unify more (.compound "f" [.var ⟨"Y", 2⟩, .compound "g" [.var ⟨"Z", 1⟩]])
        (.compound "f" [.var ⟨"X", 3⟩, .var ⟨"Y", 2⟩]) = some (.ok more) := by
  have hrun : unify .empty (.compound "f" [.var ⟨"X", 3⟩, .var ⟨"Y", 2⟩])
      (.compound "f" [.var ⟨"Y", 2⟩, .compound "g" [.var ⟨"Z", 1⟩]]) =
      some ⟨[.bound ⟨"X", 3⟩ (.var ⟨"Y", 2⟩), .bound ⟨"Y", 2⟩ (.compound "g" [.var ⟨"Z", 1⟩])],
        some ((Bindings.empty.assign ⟨"X", 3⟩ (.var ⟨"Y", 2⟩)).assign ⟨"Y", 2⟩
          (.compound "g" [.var ⟨"Z", 1⟩]))⟩ := rfl
  have hA : Bindings.Acyclic (((Bindings.empty.assign ⟨"X", 3⟩ (.var ⟨"Y", 2⟩)).assign ⟨"Y", 2⟩
      (.compound "g" [.var ⟨"Z", 1⟩])).assign ⟨"Z", 1⟩ (.num (.int 7))) :=
    Bindings.acyclic_of_entries (by decide)
  have ho : Bindings.Ordered (((Bindings.empty.assign ⟨"X", 3⟩ (.var ⟨"Y", 2⟩)).assign ⟨"Y", 2⟩
      (.compound "g" [.var ⟨"Z", 1⟩])).assign ⟨"Z", 1⟩ (.num (.int 7))) := by
    refine ((Bindings.ordered_empty.assign _ ?_).assign _ ?_).assign _ ?_ <;>
      simp [Term.Ordered, Term.OrderedArgs, Number.IsOrdered]
  obtain ⟨-, hagain⟩ := unify_again hrun rfl ⟨trivial, trivial, trivial⟩
    (Bindings.contains_assign _ rfl) hA ho
  exact ⟨_, _, _, hrun, rfl, rfl, rfl, rfl, rfl, hagain⟩

end Unification

end LogicTerms
