/-
**More bindings refine answers.**

Bindings that contain others know more: a variable that was unbound may have got a value, and an
unbound end of a chain of variables may have become part of a longer chain.  Nothing that was known
before is lost by that.  Expanding a term under the fewer bindings first, and its expansion under
the more bindings then, is expanding it under the more bindings at once, because the fewer bindings
hold when terms are compared by their expansions under the more.  So an answer can only become more
definite, and a ground answer stays as it is.

Main results:

* `Term.Precongruence.expand` — where bindings hold, a term is related to its expansion;
* `Bindings.Contains.acyclic` — fewer bindings have fewer cycles;
* `Bindings.Contains.deref_deref`, `Bindings.Contains.expand_expand` — what is known from fewer
  bindings can be used under more;
* `Bindings.expand_refines` — **answers are refined by more bindings**.
-/

import LogicTerms.Proofs.Bindings.Acyclic
import LogicTerms.Proofs.Unification.Soundness

set_option relaxedAutoImplicit false
set_option autoImplicit false

namespace LogicTerms

variable {env env' : Bindings} {t u : Term}

/-! ### Expansions in a relation that goes up -/

namespace Term.Precongruence

variable {E : Term → Term → Prop}

/-- A term is related to what a substitution makes of it, if its variables are. -/
theorem subst (hE : Precongruence E) {σ : Variable → Term}
    (h : ∀ w ∈ t.occurrences, E (.var w) (σ w)) : E t (t.subst σ) := by
  induction t using Term.induct with
  | var v => exact h v (List.mem_singleton.2 rfl)
  | atom a => exact hE.refl _
  | num n => exact hE.refl _
  | compound f args ih =>
      rw [Term.subst, substArgs_eq_map]
      refine hE.compound f ?_
      rw [List.forall₂_map_right_iff, List.forall₂_same]
      exact fun a ha => ih a ha fun w hw => h w (mem_occurrences_compound_iff.2 ⟨a, ha, hw⟩)

theorem expandVariable (hE : Precongruence E) (h : env.HoldsIn E) (depth : ℕ)
    (within : List UInt64) (v : Variable) : E (.var v) (env.expandVariable depth within v) := by
  induction depth generalizing within v with
  | zero => exact hE.refl _
  | succ depth ih =>
      by_cases hv : v.id ∈ within
      · rw [Bindings.expandVariable, if_pos (by simpa using hv)]
        exact hE.refl _
      · have hd := hE.deref h (.var v)
        rw [Bindings.expandVariable_succ hv]
        cases hu : env.deref (.var v) with
        | var w => rwa [hu] at hd
        | _ =>
            rw [hu] at hd
            exact hE.trans hd (hE.subst fun w _ => ih _ w)

/-- **Where bindings hold, a term is related to its expansion.** -/
theorem expand (hE : Precongruence E) (h : env.HoldsIn E) (t : Term) : E t (env.expand t) :=
  hE.subst fun w _ => hE.expandVariable h _ _ w

end Term.Precongruence

/-- A substitution changes nothing in a term whose variables it leaves. -/
theorem Term.subst_eq_self {σ : Variable → Term} (h : ∀ w ∈ t.occurrences, σ w = .var w) :
    t.subst σ = t := (Term.subst_congr h).trans t.subst_var

namespace Bindings

/-- Having one and the same expansion goes up. -/
theorem precongruence_expand (env : Bindings) :
    Term.Precongruence fun t u => env.expand t = env.expand u where
  refl _ := rfl
  trans h h' := h.trans h'
  compound f as bs h := by
    rw [expand_compound, expand_compound, Term.compound.injEq, ← List.forall₂_eq_eq_eq,
      List.forall₂_map_left_iff, List.forall₂_map_right_iff]
    exact ⟨rfl, h⟩

theorem expand_of_isGround (h : t.isGround = true) : env.expand t = t := by
  refine Term.subst_eq_self fun w hw => ?_
  rw [Term.occurrences_eq_nil_iff.2 h] at hw
  exact nomatch hw

/-! ### More bindings -/

namespace Contains

theorem refl (env : Bindings) : env.Contains env := fun _ _ h => h

theorem refers (h : env'.Contains env) {i j : UInt64} (hij : env.Refers i j) :
    env'.Refers i j := by
  obtain ⟨t, ht, hj⟩ := hij
  exact ⟨t, h ⟨"", i⟩ t ht, hj⟩

/-- **Fewer bindings have fewer cycles.** -/
theorem acyclic (h : env'.Contains env) (hA : env'.Acyclic) : env.Acyclic :=
  fun i hi => hA i (Relation.TransGen.mono (fun _ _ => h.refers) _ _ hi)

theorem follows (h : env'.Contains env) {n : ℕ} (hf : env.Follows n t u) :
    env'.Follows n t u := by
  induction hf with
  | here t => exact .here t
  | step hv _ ih => exact .step (h _ _ hv) ih

/-- **What a term stands for under fewer bindings** stands for the same under more. -/
theorem deref_deref (h : env'.Contains env) (hA : env'.Acyclic) (t : Term) :
    env'.deref (env.deref t) = env'.deref t := by
  obtain ⟨n, -, hf, -⟩ := follows_deref (h.acyclic hA).noAliasCycle t
  exact ((h.follows hf).deref_eq_deref hA.noAliasCycle).symm

/-- Fewer bindings hold when terms are compared by their expansions under more. -/
theorem holdsIn (h : env'.Contains env) (hA : env'.Acyclic) :
    env.HoldsIn fun t u => env'.expand t = env'.expand u :=
  fun _ _ hv => expand_eq_of_find? hA (h _ _ hv)

/-- **An expansion under fewer bindings** expands to the same under more. -/
theorem expand_expand (h : env'.Contains env) (hA : env'.Acyclic) (t : Term) :
    env'.expand (env.expand t) = env'.expand t :=
  (env'.precongruence_expand.expand (h.holdsIn hA) t).symm

end Contains

/-! ### Answers -/

/-- **Answers are refined by more bindings.**  Under acyclic bindings that contain others, what a term
stands for or expands to under the others stands for and expands to the same as the term.  So the
answer for a name is the expansion of the answer that there was, and a ground answer stays. -/
theorem expand_refines (hA : env'.Acyclic) (h : env'.Contains env) :
    (∀ t, env'.expand (env.expand t) = env'.expand t) ∧
      (∀ t, env'.deref (env.deref t) = env'.deref t) ∧
      (∀ t, (env.expand t).isGround = true → env'.expand t = env.expand t) ∧
      (env'.names = env.names → ∀ name,
        env'.byName? name = (env.byName? name).map env'.expand ∧
          ∀ t, env.byName? name = some t → t.isGround = true → env'.byName? name = some t) := by
  have hground : ∀ t, (env.expand t).isGround = true → env'.expand t = env.expand t := by
    intro t ht
    rw [← h.expand_expand hA, expand_of_isGround ht]
  refine ⟨h.expand_expand hA, h.deref_deref hA, hground, fun hnames name => ?_⟩
  have hname : env'.byName? name = (env.byName? name).map env'.expand := by
    rw [byName?, byName?, hnames, Option.map_map]
    exact Option.map_congr fun v _ => (h.expand_expand hA (.var v)).symm
  refine ⟨hname, fun t ht hg => ?_⟩
  rw [hname, ht, Option.map_some, expand_of_isGround hg]

/-- A chain whose end is bound later, and an answer that is ground before. -/
theorem expand_refines_alias :
    ∃ env env' : Bindings, env'.Acyclic ∧ env'.Contains env ∧ env'.names = env.names ∧
      env.byName? "Z" = some (.compound "f" [.var ⟨"Y", 2⟩]) ∧
      env'.byName? "Z" = some (.compound "f" [.atom "a"]) ∧
      env.byName? "U" = some (.atom "b") ∧ env'.byName? "U" = some (.atom "b") ∧
      env.deref (.var ⟨"X", 3⟩) = .var ⟨"Y", 2⟩ ∧
      env'.deref (.var ⟨"Y", 2⟩) = env'.deref (.var ⟨"X", 3⟩) := by
  have hA : Acyclic (((((Bindings.empty.assign ⟨"X", 3⟩ (.var ⟨"Y", 2⟩)).assign ⟨"Z", 4⟩
      (.compound "f" [.var ⟨"X", 3⟩])).assign ⟨"U", 1⟩ (.atom "b")).withNames
        [⟨"Z", 4⟩, ⟨"U", 1⟩]).assign ⟨"Y", 2⟩ (.atom "a")) := acyclic_of_entries (by decide)
  obtain ⟨-, hderef, -, hnames⟩ := expand_refines hA (contains_assign _ rfl)
  refine ⟨_, _, hA, contains_assign _ rfl, rfl, rfl, ?_, rfl, (hnames rfl "U").2 _ rfl rfl, rfl,
    hderef (.var ⟨"X", 3⟩)⟩
  rw [(hnames rfl "Z").1]
  rfl

end Bindings

end LogicTerms
