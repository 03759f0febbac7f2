/-
**Chains of variables.**

A variable may be bound to a variable, that one to another, and so on.  Such a chain is followed to
its end whenever the value of a variable is asked for, and nothing guards the walk, so it ends only
if no variable leads back to itself.

That it then ends soon is a counting argument, which is made for any relation between bound
variables: one step along a relation without cycles leaves the starting variable behind for good,
so the number of bound variables *ahead* gets smaller with every step.

Main definitions:

* `Bindings.Contains` — all bindings of the second are bindings of the first;
* `Bindings.Aliases` — a variable is bound to a variable;
* `Bindings.NoAliasCycle` — no variable leads back to itself along such bindings;
* `Bindings.ahead` — the bound variables that a relation leads to from a variable;
* `Bindings.Settled` — a term that is no bound variable;
* `Bindings.Follows` — a term after some number of bindings has been followed.

Main results:

* `Bindings.card_ahead_lt` — a step along a relation without cycles gets ahead;
* `Bindings.exists_follows` — without a cycle, every walk ends;
* `Bindings.settled_deref` — and `deref` finds the end;
* `Bindings.deref_eq_of_find?`, `Bindings.Follows.deref_eq_deref` — a variable stands for what its
  value stands for, and what a walk comes to;
* `Bindings.NoAliasCycle.assign` — when a new binding makes no cycle.
-/

import LogicTerms.Bindings.Basic
import Mathlib.Data.Finset.Card
import Mathlib.Logic.Relation

set_option relaxedAutoImplicit false
set_option autoImplicit false

namespace LogicTerms.Bindings

open Relation

variable {env : Bindings}

/-! ### Bound variables -/

/-- The ids of the bound variables. -/
def boundIds (env : Bindings) : Finset UInt64 := (env.values.entries.map Prod.fst).toFinset

theorem mem_boundIds_iff {i : UInt64} : i ∈ env.boundIds ↔ ∃ t, env.values.find? i = some t := by
  simp only [boundIds, List.mem_toFinset, List.mem_map, ← Dictionary.mem_entries_iff]
  constructor
  · rintro ⟨⟨j, t⟩, h, rfl⟩
    exact ⟨t, h⟩
  · rintro ⟨t, h⟩
    exact ⟨(i, t), h, rfl⟩

theorem card_boundIds (env : Bindings) : env.boundIds.card = env.size := by
  rw [boundIds, List.toFinset_card_of_nodup env.values.distinct, List.length_map, size,
    Dictionary.size]

/-- The value of a variable depends on its id alone. -/
theorem find?_congr {v w : Variable} (h : v.id = w.id) : env.find? v = env.find? w := by
  rw [find?, find?, h]

/-! ### Assigning a value -/

theorem find?_assign_self {v w : Variable} (t : Term) (h : w.id = v.id) :
    (env.assign v t).find? w = some t := by
  rw [find?, assign, h]
  exact Dictionary.find?_insert_self _ _ _

theorem find?_assign_of_ne {v w : Variable} (t : Term) (h : w.id ≠ v.id) :
    (env.assign v t).find? w = env.find? w :=
  Dictionary.find?_insert_of_ne _ t h

/-- All bindings of the second are bindings of the first. -/
def Contains (env' env : Bindings) : Prop := ∀ v t, env.find? v = some t → env'.find? v = some t

/-- Bindings with one more contain those before. -/
theorem contains_assign {v : Variable} (t : Term) (hv : env.find? v = none) :
    (env.assign v t).Contains env := by
  intro w u hw
  rwa [find?_assign_of_ne t fun hid => ?_]
  rw [find?_congr hid, hv] at hw
  exact nomatch hw

theorem isBound_eq_false_iff {v : Variable} : env.isBound v = false ↔ env.find? v = none := by
  rw [isBound, Option.isSome_eq_false_iff, Option.isNone_iff_eq_none]

/-- Exactly the unbound variables can be bound. -/
theorem bind_eq_ok_iff {env' : Bindings} {v : Variable} {t : Term} :
    env.bind v t = .ok env' ↔ env.find? v = none ∧ env' = env.assign v t := by
  rw [bind, ← isBound_eq_false_iff]
  cases env.isBound v with
  | false => simp [eq_comm]
  | true => simp

theorem size_assign {v : Variable} (t : Term) (h : env.find? v = none) :
    (env.assign v t).size = env.size + 1 :=
  Dictionary.size_insert _ t h

/-! ### Walks without cycles -/

/-- The bound variables that the relation leads to from a variable, itself included. -/
noncomputable def ahead (env : Bindings) (R : UInt64 → UInt64 → Prop) (i : UInt64) :
    Finset UInt64 := by
  classical exact env.boundIds.filter (ReflTransGen R i)

theorem mem_ahead_iff {R : UInt64 → UInt64 → Prop} {i j : UInt64} :
    j ∈ env.ahead R i ↔ j ∈ env.boundIds ∧ ReflTransGen R i j := by
  simp only [ahead, Finset.mem_filter]

theorem card_ahead_le (R : UInt64 → UInt64 → Prop) (i : UInt64) :
    (env.ahead R i).card ≤ env.size := by
  refine (Finset.card_le_card ?_).trans env.card_boundIds.le
  intro j hj
  exact (mem_ahead_iff.1 hj).1

/-- What is ahead of a later variable is ahead of an earlier one. -/
theorem ahead_subset {R : UInt64 → UInt64 → Prop} {i j : UInt64} (h : ReflTransGen R i j) :
    env.ahead R j ⊆ env.ahead R i := by
  intro k hk
  obtain ⟨hb, hjk⟩ := mem_ahead_iff.1 hk
  exact mem_ahead_iff.2 ⟨hb, h.trans hjk⟩

/-- A bound variable is ahead of itself. -/
theorem card_ahead_pos (R : UInt64 → UInt64 → Prop) {v : Variable} {t : Term}
    (h : env.find? v = some t) : 0 < (env.ahead R v.id).card :=
  Finset.card_pos.2 ⟨v.id, mem_ahead_iff.2 ⟨mem_boundIds_iff.2 ⟨t, h⟩, ReflTransGen.refl⟩⟩

/-- **A step along a relation without cycles gets ahead**: less is ahead of a later variable than
of an earlier, bound one. -/
theorem card_ahead_lt {R : UInt64 → UInt64 → Prop} {i j : UInt64} (hi : i ∈ env.boundIds)
    (hij : TransGen R i j) (hc : ¬ TransGen R i i) :
    (env.ahead R j).card < (env.ahead R i).card := by
  refine Finset.card_lt_card ⟨ahead_subset hij.to_reflTransGen, fun hsub => ?_⟩
  have hmem : i ∈ env.ahead R i := mem_ahead_iff.2 ⟨hi, ReflTransGen.refl⟩
  have hji : ReflTransGen R j i := (mem_ahead_iff.1 (hsub hmem)).2
  exact hc (hij.trans_left hji)

/-! ### Following variables -/

/-- The variable of the first id is bound to the variable of the second. -/
def Aliases (env : Bindings) (i j : UInt64) : Prop :=
  ∃ w, env.values.find? i = some (.var w) ∧ w.id = j

/-- No variable leads back to itself through bindings of variables to variables. -/
def NoAliasCycle (env : Bindings) : Prop := ∀ i, ¬ TransGen env.Aliases i i

/-- The term is no bound variable. -/
def Settled (env : Bindings) (t : Term) : Prop := ∀ v, t = .var v → env.find? v = none

/-- The second term is what becomes of the first when so many bindings are followed. -/
inductive Follows (env : Bindings) : ℕ → Term → Term → Prop
  | here (t : Term) : Follows env 0 t t
  | step {n : ℕ} {v : Variable} {t u : Term} :
      env.find? v = some t → Follows env n t u → Follows env (n + 1) (.var v) u

theorem settled_var_iff {v : Variable} : env.Settled (.var v) ↔ env.find? v = none := by
  constructor
  · intro h
    exact h v rfl
  · intro h w hw
    cases hw
    exact h

/-- With enough steps, `follow` finds the end of a walk. -/
theorem Follows.follow_eq {n m : ℕ} {t u : Term} (h : env.Follows n t u) (hu : env.Settled u)
    (hm : n ≤ m) : env.follow m t = u := by
  induction h generalizing m with
  | here t =>
      cases t with
      | var v =>
          cases m with
          | zero => rfl
          | succ m => simp only [follow, settled_var_iff.1 hu]
      | _ => cases m <;> rfl
  | @step n v t u hv _ ih =>
      obtain ⟨m, rfl⟩ : ∃ k, m = k + 1 := ⟨m - 1, by omega⟩
      simp only [follow, hv]
      exact ih hu (by omega)

/-- Two walks from one term end at the same term. -/
theorem Follows.unique {n m : ℕ} {t u u' : Term} (h : env.Follows n t u) (hu : env.Settled u)
    (h' : env.Follows m t u') (hu' : env.Settled u') : u = u' := by
  rw [← h.follow_eq hu (Nat.le_max_left n m), h'.follow_eq hu' (Nat.le_max_right n m)]

/-- No walk is longer than one that has come to its end. -/
theorem Follows.le_of_settled {n m : ℕ} {t u u' : Term} (h : env.Follows n t u)
    (h' : env.Follows m t u') (hu' : env.Settled u') : n ≤ m := by
  induction h generalizing m with
  | here => exact Nat.zero_le m
  | step hv _ ih =>
      cases h' with
      | here => exact nomatch (settled_var_iff.1 hu').symm.trans hv
      | step hv' h' =>
          rw [hv] at hv'
          cases hv'
          exact Nat.succ_le_succ (ih h')

/-- **Without a cycle of variables every walk ends**, after no more bindings than there are
bound variables ahead. -/
theorem exists_follows (hc : env.NoAliasCycle) (v : Variable) :
    ∃ n u, n ≤ (env.ahead env.Aliases v.id).card ∧ env.Follows n (.var v) u ∧ env.Settled u := by
  -- on the number of bound variables ahead, which a step to a variable lowers
  induction hk : (env.ahead env.Aliases v.id).card using Nat.strong_induction_on generalizing v with
  | _ k ih =>
      cases hv : env.find? v with
      | none => exact ⟨0, .var v, Nat.zero_le k, .here _, settled_var_iff.2 hv⟩
      | some t =>
          have hmem : v.id ∈ env.boundIds := mem_boundIds_iff.2 ⟨t, hv⟩
          by_cases hw : ∃ w, t = .var w
          · obtain ⟨w, rfl⟩ := hw
            have hlt := card_ahead_lt hmem (.single ⟨w, hv, rfl⟩) (hc v.id)
            obtain ⟨n, u, hn, hf, hu⟩ := ih _ (hk ▸ hlt) w rfl
            exact ⟨n + 1, u, by omega, .step hv hf, hu⟩
          · have hpos := card_ahead_pos env.Aliases hv
            exact ⟨1, t, by omega, .step hv (.here t), fun w h => absurd ⟨w, h⟩ hw⟩

/-! ### What a term stands for -/

theorem resolve?_eq_none_iff {v : Variable} : env.resolve? v = none ↔ env.find? v = none := by
  rw [resolve?, Option.map_eq_none_iff]

theorem deref_of_settled {t : Term} (h : env.Settled t) : env.deref t = t := by
  cases t with
  | var v => rw [deref, resolve?_eq_none_iff.2 (settled_var_iff.1 h), Option.getD_none]
  | _ => rfl

theorem deref_of_find? {v : Variable} {t : Term} (h : env.find? v = some t) :
    env.deref (.var v) = env.follow env.size t := by
  rw [deref, resolve?, h, Option.map_some, Option.getD_some]

/-- `deref` finds the end of every walk that ends within the number of bound variables. -/
theorem Follows.deref_eq {n : ℕ} {t u : Term} (h : env.Follows n t u) (hu : env.Settled u)
    (hn : n ≤ env.size + 1) : env.deref t = u := by
  cases h with
  | here => exact deref_of_settled hu
  | step hv h => rw [deref_of_find? hv, h.follow_eq hu (by omega)]

/-- Without a cycle of variables, `deref` follows bindings up to a term that is no bound variable,
and never more of them than there are. -/
theorem follows_deref (hc : env.NoAliasCycle) (t : Term) :
    ∃ n ≤ env.size, env.Follows n t (env.deref t) ∧ env.Settled (env.deref t) := by
  by_cases ht : ∃ v, t = .var v
  · obtain ⟨v, rfl⟩ := ht
    obtain ⟨n, u, hn, hf, hu⟩ := exists_follows hc v
    have hle : n ≤ env.size := hn.trans (card_ahead_le _ _)
    have he : env.deref (.var v) = u := hf.deref_eq hu (by omega)
    rw [he]
    exact ⟨n, hle, hf, hu⟩
  · have hs : env.Settled t := fun v h => absurd ⟨v, h⟩ ht
    rw [deref_of_settled hs]
    exact ⟨0, Nat.zero_le _, .here t, hs⟩

/-- **What a term stands for is no bound variable.** -/
theorem settled_deref (hc : env.NoAliasCycle) (t : Term) : env.Settled (env.deref t) := by
  obtain ⟨n, -, -, hs⟩ := follows_deref hc t
  exact hs

theorem deref_deref (hc : env.NoAliasCycle) (t : Term) : env.deref (env.deref t) = env.deref t :=
  deref_of_settled (settled_deref hc t)

/-- **A variable stands for what its value stands for.** -/
theorem deref_eq_of_find? (hc : env.NoAliasCycle) {v : Variable} {t : Term}
    (h : env.find? v = some t) : env.deref (.var v) = env.deref t := by
  obtain ⟨n, -, hf, hs⟩ := follows_deref hc t
  obtain ⟨m, -, hf', hs'⟩ := follows_deref hc (.var v)
  exact hf'.unique hs' (.step h hf) hs

/-- What a walk comes to stands for the same as its start. -/
theorem Follows.deref_eq_deref (hc : env.NoAliasCycle) {n : ℕ} {t u : Term}
    (h : env.Follows n t u) : env.deref t = env.deref u := by
  induction h with
  | here t => rfl
  | step hv _ ih => rw [deref_eq_of_find? hc hv, ih]

/-- A variable that leads to an unbound variable stands for it. -/
theorem deref_of_reflTransGen (hc : env.NoAliasCycle) {v w : Variable}
    (h : ReflTransGen env.Aliases w.id v.id) (hv : env.find? v = none) :
    ∃ x, env.deref (.var w) = .var x ∧ x.id = v.id := by
  generalize hi : w.id = i at h
  -- from the end of the walk: a step before it is a binding of a variable to a variable
  induction h using ReflTransGen.head_induction_on generalizing w with
  | refl =>
      have hw : env.find? w = none := (find?_congr hi).trans hv
      exact ⟨w, deref_of_settled (settled_var_iff.2 hw), hi⟩
  | head h _ ih =>
      obtain ⟨x, hx, hid⟩ := h
      have hw : env.find? w = some (.var x) := by rw [find?, hi, hx]
      rw [deref_eq_of_find? hc hw]
      exact ih hid

/-! ### New bindings -/

theorem noAliasCycle_empty : empty.NoAliasCycle := by
  intro i hi
  obtain ⟨j, ⟨w, hw, -⟩, -⟩ := TransGen.head'_iff.1 hi
  exact nomatch hw

/-- The value of a bound variable is the new one or that from before. -/
theorem find?_assign_cases {v : Variable} {t u : Term} {i : UInt64}
    (h : (env.assign v t).values.find? i = some u) :
    (i ≠ v.id ∧ env.values.find? i = some u) ∨ (i = v.id ∧ u = t) := by
  by_cases hi : i = v.id
  · rw [hi, assign, Dictionary.find?_insert_self] at h
    exact .inr ⟨hi, (Option.some.inj h).symm⟩
  · rw [assign, Dictionary.find?_insert_of_ne _ _ hi] at h
    exact .inl ⟨hi, h⟩

section Walks

variable {R R' : UInt64 → UInt64 → Prop} {k : UInt64}

/-- Up to the variable whose steps are new, a walk uses old steps only. -/
theorem reflTransGen_of_new (h : ∀ i j, R' i j → i ≠ k → R i j) {i : UInt64}
    (hi : ReflTransGen R' i k) : ReflTransGen R i k := by
  induction hi using ReflTransGen.head_induction_on with
  | refl => exact ReflTransGen.refl
  | @head i j hij _ ih =>
      by_cases hik : i = k
      · exact hik ▸ ReflTransGen.refl
      · exact ih.head (h i j hij hik)

/-- A walk that old steps alone do not make passes the variable whose steps are new. -/
theorem transGen_of_new (h : ∀ i j, R' i j → i ≠ k → R i j) {i j : UInt64}
    (hij : TransGen R' i j) : TransGen R i j ∨ ReflTransGen R' i k ∧ TransGen R' k j := by
  induction hij with
  | @single j hs =>
      by_cases hik : i = k
      · subst hik
        exact .inr ⟨ReflTransGen.refl, .single hs⟩
      · exact .inl (.single (h i j hs hik))
  | @tail b j hp hs ih =>
      obtain ih | ⟨hi, hk⟩ := ih
      · by_cases hbk : b = k
        · subst hbk
          exact .inr ⟨hp.to_reflTransGen, .single hs⟩
        · exact .inl (ih.tail (h b j hs hbk))
      · exact .inr ⟨hi, hk.tail hs⟩

/-- **A new cycle uses a new step**, and old steps lead back from there. -/
theorem exists_step_of_cycle (h : ∀ i j, R' i j → i ≠ k → R i j) {i : UInt64}
    (hi : TransGen R' i i) (hold : ¬ TransGen R i i) : ∃ j, R' k j ∧ ReflTransGen R j k := by
  have hcycle : TransGen R' k k := by
    obtain hR | ⟨hik, hki⟩ := transGen_of_new h hi
    · exact absurd hR hold
    · exact hki.trans_left hik
  obtain ⟨j, hkj, hjk⟩ := TransGen.head'_iff.1 hcycle
  exact ⟨j, hkj, reflTransGen_of_new h hjk⟩

end Walks

/-- **A new binding makes no cycle of variables**, if the new value does not stand for the variable
that is bound. -/
theorem NoAliasCycle.assign (hc : env.NoAliasCycle) {v : Variable} {t : Term}
    (hv : env.find? v = none) (ht : ∀ w, env.deref t = .var w → w.id ≠ v.id) :
    (env.assign v t).NoAliasCycle := by
  have hold : ∀ i j, (env.assign v t).Aliases i j → i ≠ v.id → env.Aliases i j := by
    rintro i j ⟨w, hw, hj⟩ hi
    obtain ⟨-, hw⟩ | ⟨hid, -⟩ := find?_assign_cases hw
    · exact ⟨w, hw, hj⟩
    · exact absurd hid hi
  intro i hi
  -- the value of the variable that is bound leads back to it
  obtain ⟨j, ⟨w, hw, rfl⟩, hback⟩ := exists_step_of_cycle hold hi (hc i)
  obtain ⟨hne, -⟩ | ⟨-, rfl⟩ := find?_assign_cases hw
  · exact hne rfl
  · obtain ⟨x, hx, hid⟩ := deref_of_reflTransGen hc hback hv
    exact ht x hx hid

end LogicTerms.Bindings
