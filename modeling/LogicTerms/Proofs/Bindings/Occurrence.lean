/-
**What occurs in an expansion.**

The variables of an expansion are variables that the term leads to, through the values of bound
variables.  If bindings have no cycle, then every unbound variable that the term leads to does occur
in its expansion.  So whether a binding would make a cycle can be seen from the expansion of the
value: it would if the variable occurs there.  And a term expands to a ground term if all variables
that it leads to are bound, which more bindings do not change.

Main definitions:

* `Bindings.Grounded` — every variable that a term leads to is bound.

Main results:

* `Bindings.refers_of_mentions_expand` — the variables of an expansion are led to;
* `Bindings.mentions_expand_of_refers` — unbound variables that are led to occur in the expansion;
* `Bindings.Acyclic.assign` — **a binding makes no cycle if the variable does not occur in the
  expansion of the value**;
* `Bindings.Grounded.mono` — more bindings keep a term grounded.
-/

import LogicTerms.Proofs.Bindings.Acyclic
import LogicTerms.Proofs.Unification.Extension

set_option relaxedAutoImplicit false
set_option autoImplicit false

namespace LogicTerms

open Relation

/-! ### Occurrences in terms -/

namespace Term

variable {t : Term} {i : UInt64}

/-- The variables after a substitution are those of what the variables were replaced by. -/
theorem mentions_subst_iff {σ : Variable → Term} :
    (t.subst σ).Mentions i ↔ ∃ w ∈ t.occurrences, (σ w).Mentions i := by
  induction t using induct with
  | var v => simp [subst, occurrences]
  | atom a => simp [subst, occurrences, Mentions]
  | num n => simp [subst, occurrences, Mentions]
  | compound f args ih =>
      rw [subst, substArgs_eq_map, mentions_compound_iff]
      simp only [List.mem_map, mem_occurrences_compound_iff]
      constructor
      · rintro ⟨_, ⟨a, ha, rfl⟩, hi⟩
        obtain ⟨w, hw, hi⟩ := (ih a ha).1 hi
        exact ⟨w, ⟨a, ha, hw⟩, hi⟩
      · rintro ⟨w, ⟨a, ha, hw⟩, hi⟩
        exact ⟨_, ⟨a, ha, rfl⟩, (ih a ha).2 ⟨w, hw, hi⟩⟩

/-- No variable occurs in a ground term. -/
theorem not_mentions_of_isGround (h : t.isGround = true) : ¬ t.Mentions i := by
  rintro ⟨w, hw, -⟩
  rw [occurrences_eq_nil_iff.2 h] at hw
  exact nomatch hw

end Term

namespace Bindings

variable {P : Term → Prop} {env env' : Bindings} {t u : Term} {i j : UInt64}

/-! ### Occurrences in expansions -/

/-- What a variable stands for is led to. -/
theorem refers_of_mentions_deref (hc : env.NoAliasCycle) {v : Variable}
    (h : (env.deref (.var v)).Mentions i) : ReflTransGen env.Refers v.id i := by
  obtain ⟨n, -, hf, -⟩ := follows_deref hc (.var v)
  by_cases he : env.deref (.var v) = .var v
  · rw [he] at h
    rw [Term.mentions_var_iff.1 h]
  · exact (hf.refers h he).to_reflTransGen

theorem refers_of_mentions_expandVariable (hc : env.NoAliasCycle) {depth : ℕ}
    {within : List UInt64} {v : Variable} (h : (env.expandVariable depth within v).Mentions i) :
    ReflTransGen env.Refers v.id i := by
  induction depth generalizing within v with
  | zero =>
      rw [Term.mentions_var_iff.1 h]
  | succ depth ih =>
      by_cases hv : v.id ∈ within
      · rw [expandVariable, if_pos (by simpa using hv)] at h
        rw [Term.mentions_var_iff.1 h]
      · have hvalue : ∀ u, env.deref (.var v) = u →
            (u.subst (env.expandVariable depth (v.id :: within))).Mentions i →
            ReflTransGen env.Refers v.id i := by
          intro u hu h
          obtain ⟨w, hw, h⟩ := Term.mentions_subst_iff.1 h
          have hmentions : (env.deref (.var v)).Mentions w.id := hu ▸ ⟨w, hw, rfl⟩
          exact (refers_of_mentions_deref hc hmentions).trans (ih h)
        rw [expandVariable_succ hv] at h
        cases hd : env.deref (.var v) with
        | var w =>
            rw [hd] at h
            exact refers_of_mentions_deref hc (hd ▸ h)
        | _ =>
            rw [hd] at h
            exact hvalue _ hd h

/-- **The variables of an expansion are led to** from the term. -/
theorem refers_of_mentions_expand (hc : env.NoAliasCycle) (h : (env.expand t).Mentions j) :
    ∃ i, t.Mentions i ∧ ReflTransGen env.Refers i j := by
  obtain ⟨w, hw, h⟩ := Term.mentions_subst_iff.1 h
  exact ⟨w.id, ⟨w, hw, rfl⟩, refers_of_mentions_expandVariable hc h⟩

/-- **An unbound variable that a term leads to occurs in its expansion**, without a cycle. -/
theorem mentions_expand_of_refers (hA : env.Acyclic) (hj : env.values.find? j = none)
    (ht : t.Mentions i) (h : ReflTransGen env.Refers i j) : (env.expand t).Mentions j := by
  have hvar : ∀ w : Variable, w.id = i → (env.expand (.var w)).Mentions j := by
    clear ht
    induction h using ReflTransGen.head_induction_on with
    | refl =>
        intro w hw
        have hn : env.find? w = none := by rw [find?, hw, hj]
        rw [expand_of_unbound hn]
        exact Term.mentions_var_iff.2 hw
    | head hstep _ ih =>
        intro w hw
        obtain ⟨u, hu, x, hx, hid⟩ := hstep
        rw [expand_eq_of_find? hA (by rw [find?, hw, hu])]
        exact Term.mentions_subst_iff.2 ⟨x, hx, ih x hid⟩
  obtain ⟨w, hw, hid⟩ := ht
  exact Term.mentions_subst_iff.2 ⟨w, hw, hvar w hid⟩

/-! ### New bindings -/

/-- **A binding makes no cycle** if the variable does not occur in the expansion of the value. -/
theorem Acyclic.assign (hA : env.Acyclic) {v : Variable} (hv : env.find? v = none)
    (ht : ¬ (env.expand t).Mentions v.id) : (env.assign v t).Acyclic := by
  have hold : ∀ i j, (env.assign v t).Refers i j → i ≠ v.id → env.Refers i j := by
    rintro i j ⟨u, hu, hj⟩ hi
    obtain ⟨-, hu⟩ | ⟨hid, -⟩ := find?_assign_cases hu
    · exact ⟨u, hu, hj⟩
    · exact absurd hid hi
  intro i hi
  -- the value of the variable that is bound leads back to it
  obtain ⟨j, ⟨u, hu, hj⟩, hback⟩ := exists_step_of_cycle hold hi (hA i)
  obtain ⟨hne, -⟩ | ⟨-, rfl⟩ := find?_assign_cases hu
  · exact hne rfl
  · exact ht (mentions_expand_of_refers hA hv hj hback)

/-! ### Grounded terms -/

/-- Every variable that the term leads to is bound. -/
def Grounded (env : Bindings) (t : Term) : Prop :=
  ∀ i j, t.Mentions i → ReflTransGen env.Refers i j → ∃ u, env.values.find? j = some u

/-- A term that expands to a ground term is grounded. -/
theorem grounded_of_isGround_expand (hA : env.Acyclic) (h : (env.expand t).isGround = true) :
    env.Grounded t := by
  intro i j ht hij
  cases hj : env.values.find? j with
  | some u => exact ⟨u, rfl⟩
  | none =>
      have hmentions := mentions_expand_of_refers hA hj ht hij
      exact absurd hmentions (Term.not_mentions_of_isGround h)

/-- No unbound variable occurs in the expansion of a grounded term. -/
theorem Grounded.not_mentions_expand (h : env.Grounded t) (hc : env.NoAliasCycle)
    (hj : env.values.find? j = none) : ¬ (env.expand t).Mentions j := by
  intro hmentions
  obtain ⟨i, hi, hij⟩ := refers_of_mentions_expand hc hmentions
  obtain ⟨u, hu⟩ := h i j hi hij
  rw [hj] at hu
  exact nomatch hu

theorem Grounded.arg {f : String} {args : List Term} (h : env.Grounded (.compound f args))
    (ht : t ∈ args) : env.Grounded t :=
  fun i j hi => h i j (Term.mentions_compound_iff.2 ⟨t, ht, hi⟩)

/-- What a grounded term stands for is grounded. -/
theorem Grounded.deref (h : env.Grounded t) (hc : env.NoAliasCycle) : env.Grounded (env.deref t) := by
  cases t with
  | var v =>
      intro i j hi hij
      exact h v.id j (Term.mentions_var_iff.2 rfl) ((refers_of_mentions_deref hc hi).trans hij)
  | _ => exact h

/-- A grounded term stands for no unbound variable. -/
theorem Grounded.deref_ne (h : env.Grounded t) (hc : env.NoAliasCycle) (w : Variable) :
    env.deref t ≠ .var w := by
  intro hd
  have hw : env.find? w = none := settled_var_iff.1 (hd ▸ settled_deref hc t)
  obtain ⟨u, hu⟩ := (h.deref hc) w.id w.id (hd ▸ Term.mentions_var_iff.2 rfl) .refl
  rw [find?, hu] at hw
  cases hw

/-- **More bindings keep a term grounded.** -/
theorem Grounded.mono (h : env.Grounded t) (hext : Extends P env env') : env'.Grounded t := by
  intro i j hi hij
  have hold : ReflTransGen env.Refers i j := by
    induction hij with
    | refl => exact .refl
    | tail _ hstep ih =>
        -- what was led to so far was bound from the start, and to the same value
        obtain ⟨u, hu, hmentions⟩ := hstep
        obtain ⟨u', hu'⟩ := h i _ hi ih
        have he := hext.find?_eq (v := ⟨"", _⟩) hu'
        rw [find?, hu] at he
        cases he
        exact ih.tail ⟨u, hu', hmentions⟩
  obtain ⟨u, hu⟩ := h i j hi hold
  exact ⟨u, hext.find?_eq (v := ⟨"", j⟩) hu⟩

end Bindings

end LogicTerms
