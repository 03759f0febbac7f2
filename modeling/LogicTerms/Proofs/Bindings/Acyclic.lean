/-
**Bindings without cycles.**

A variable refers to the variables that occur in its value.  Bindings are acyclic if no variable
leads back to itself along such references; then values can be unfolded to the end.  In particular
the guard of an expansion, which keeps a variable out of its own expansion, never has anything to
do, so that what a variable expands to depends neither on the place nor on the depth that is left.

Main definitions:

* `Term.Mentions` — the variable of an id occurs in a term;
* `Bindings.Refers` — a variable occurs in the value of another;
* `Bindings.Acyclic` — no variable refers to itself, directly or through others.

Main results:

* `Bindings.acyclic_of_lt`, `Bindings.acyclic_of_entries` — reasons for bindings to be acyclic;
* `Bindings.expandVariable_congr` — an expansion depends neither on place nor on depth;
* `Bindings.expand_deref` — **a term expands to what it stands for, expanded**;
* `Bindings.expand_eq_of_find?` — a variable expands to its value, expanded.
-/

import LogicTerms.Bindings.Expansion
import LogicTerms.Proofs.Bindings.Aliases
import LogicTerms.Term.Variables

set_option relaxedAutoImplicit false
set_option autoImplicit false

namespace LogicTerms

/-! ### Occurrences -/

namespace Term

/-- The variable of the id occurs in the term. -/
def Mentions (t : Term) (i : UInt64) : Prop := ∃ w ∈ t.occurrences, w.id = i

theorem mentions_var_iff {v : Variable} {i : UInt64} : (var v).Mentions i ↔ v.id = i := by
  simp [Mentions, occurrences]

theorem mentions_compound_iff {f : String} {args : List Term} {i : UInt64} :
    (compound f args).Mentions i ↔ ∃ a ∈ args, a.Mentions i := by
  simp only [Mentions, mem_occurrences_compound_iff]
  constructor
  · rintro ⟨w, ⟨a, ha, hw⟩, hi⟩
    exact ⟨a, ha, w, hw, hi⟩
  · rintro ⟨a, ha, w, hw, hi⟩
    exact ⟨w, ⟨a, ha, hw⟩, hi⟩

/-- What a substitution makes of a term depends on the variables of the term alone. -/
theorem subst_congr {σ τ : Variable → Term} {t : Term} (h : ∀ w ∈ t.occurrences, σ w = τ w) :
    t.subst σ = t.subst τ := by
  induction t using induct with
  | var v => exact h v (List.mem_singleton.2 rfl)
  | atom a => rfl
  | num n => rfl
  | compound f args ih =>
      rw [subst, subst, substArgs_eq_map, substArgs_eq_map]
      congr 1
      exact List.map_congr_left fun a ha => ih a ha fun w hw =>
        h w (mem_occurrences_compound_iff.2 ⟨a, ha, hw⟩)

end Term

namespace Bindings

open Relation

variable {env : Bindings}

/-! ### References -/

/-- The variable of the second id occurs in the value of that of the first. -/
def Refers (env : Bindings) (i j : UInt64) : Prop :=
  ∃ t, env.values.find? i = some t ∧ t.Mentions j

/-- No variable refers to itself, directly or through others. -/
def Acyclic (env : Bindings) : Prop := ∀ i, ¬ TransGen env.Refers i i

theorem Aliases.refers {i j : UInt64} (h : env.Aliases i j) : env.Refers i j := by
  obtain ⟨w, hw, hj⟩ := h
  exact ⟨.var w, hw, Term.mentions_var_iff.2 hj⟩

theorem Acyclic.noAliasCycle (h : env.Acyclic) : env.NoAliasCycle :=
  fun i hi => h i (TransGen.mono (fun _ _ => Aliases.refers) _ _ hi)

/-- Bindings are acyclic if something gets smaller along every reference. -/
theorem acyclic_of_lt {α : Type} [Preorder α] (f : UInt64 → α)
    (h : ∀ i j, env.Refers i j → f j < f i) : env.Acyclic := by
  intro i hi
  have hlt : ∀ j, TransGen env.Refers i j → f j < f i := by
    intro j hj
    induction hj with
    | single hj => exact h _ _ hj
    | tail _ hj ih => exact (h _ _ hj).trans ih
  exact lt_irrefl _ (hlt i hi)

/-- Bindings are acyclic if only variables of smaller ids occur in the values. -/
theorem acyclic_of_entries (h : ∀ e ∈ env.values.entries, ∀ w ∈ e.2.occurrences, w.id < e.1) :
    env.Acyclic := by
  refine acyclic_of_lt UInt64.toNat ?_
  rintro i j ⟨t, ht, w, hw, rfl⟩
  exact UInt64.lt_iff_toNat_lt.1 (h (i, t) ((Dictionary.mem_entries_iff _ i t).2 ht) w hw)

/-- All that a walk from a variable leads to is referred to by it. -/
theorem Follows.refers {n : ℕ} {v : Variable} {t : Term} {j : UInt64}
    (h : env.Follows n (.var v) t) (hj : t.Mentions j) (hne : t ≠ .var v) :
    TransGen env.Refers v.id j := by
  induction n generalizing v with
  | zero =>
      cases h
      exact absurd rfl hne
  | succ n ih =>
      obtain ⟨⟩ | ⟨hv, h⟩ := h
      rename_i u
      by_cases hu : u = t
      · exact .single ⟨u, hv, hu ▸ hj⟩
      · cases h with
        | here => exact absurd rfl hu
        | @step n w u' _ hw h =>
            exact (ih (.step hw h) (Ne.symm hu)).head ⟨_, hv, Term.mentions_var_iff.2 rfl⟩

/-- The variables of what a variable stands for are referred to by it. -/
theorem refers_of_deref (hc : env.NoAliasCycle) {v : Variable} {t : Term} {j : UInt64}
    (h : env.deref (.var v) = t) (ht : t.isVariable = false) (hj : t.Mentions j) :
    TransGen env.Refers v.id j := by
  obtain ⟨n, -, hf, -⟩ := follows_deref hc (.var v)
  refine (h ▸ hf).refers hj ?_
  rintro rfl
  exact nomatch ht

/-! ### Expansions -/

theorem expandVariable_of_unbound {v : Variable} (h : env.find? v = none) (depth : ℕ)
    (within : List UInt64) : env.expandVariable depth within v = .var v := by
  cases depth with
  | zero => rfl
  | succ depth =>
      rw [expandVariable, deref_of_settled (settled_var_iff.2 h)]
      split <;> rfl

/-- A variable that is met first outside of its own expansion is replaced by what it stands for,
expanded in turn. -/
theorem expandVariable_succ {depth : ℕ} {within : List UInt64} {v : Variable}
    (hv : v.id ∉ within) :
    env.expandVariable (depth + 1) within v =
      match env.deref (.var v) with
      | .var w => .var w
      | t => t.subst (env.expandVariable depth (v.id :: within)) := by
  have hnot : ¬ within.contains v.id = true := by simpa using hv
  refine (if_neg hnot).trans ?_
  cases env.deref (.var v) <;> rfl

/-- **An expansion depends neither on place nor on depth**, as long as the depth suffices for the
bound variables ahead and none of the variables around is met again. -/
theorem expandVariable_congr (hA : env.Acyclic) {n m : ℕ} {within within' : List UInt64}
    {v : Variable} (hn : (env.ahead env.Refers v.id).card ≤ n)
    (hm : (env.ahead env.Refers v.id).card ≤ m)
    (hw : ∀ j ∈ within, ¬ ReflTransGen env.Refers v.id j)
    (hw' : ∀ j ∈ within', ¬ ReflTransGen env.Refers v.id j) :
    env.expandVariable n within v = env.expandVariable m within' v := by
  -- on the depth: fewer bound variables are ahead of the variables of a value
  induction n generalizing m within within' v with
  | zero =>
      cases hv : env.find? v with
      | none => rw [expandVariable_of_unbound hv, expandVariable_of_unbound hv]
      | some t => exact absurd (card_ahead_pos env.Refers hv) (by omega)
  | succ n ih =>
      cases hv : env.find? v with
      | none => rw [expandVariable_of_unbound hv, expandVariable_of_unbound hv]
      | some t =>
          obtain ⟨m, rfl⟩ : ∃ k, m = k + 1 :=
            ⟨m - 1, by have := card_ahead_pos env.Refers hv; omega⟩
          have hmem : v.id ∈ env.boundIds := mem_boundIds_iff.2 ⟨t, hv⟩
          rw [expandVariable_succ fun h => hw _ h .refl,
            expandVariable_succ fun h => hw' _ h .refl]
          have hsub : ∀ u, env.deref (.var v) = u → u.isVariable = false →
              u.subst (env.expandVariable n (v.id :: within)) =
                u.subst (env.expandVariable m (v.id :: within')) := by
            intro u hd hu
            refine Term.subst_congr fun w hwu => ?_
            have hvw : TransGen env.Refers v.id w.id :=
              refers_of_deref hA.noAliasCycle hd hu ⟨w, hwu, rfl⟩
            have hlt := card_ahead_lt hmem hvw (hA v.id)
            have havoid : ∀ {l : List UInt64}, (∀ j ∈ l, ¬ ReflTransGen env.Refers v.id j) →
                ∀ j ∈ v.id :: l, ¬ ReflTransGen env.Refers w.id j := by
              intro l hl j hj hwj
              obtain rfl | hj := List.mem_cons.1 hj
              · exact hA _ (hvw.trans_left hwj)
              · exact hl j hj (hvw.to_reflTransGen.trans hwj)
            exact ih (by omega) (by omega) (havoid hw) (havoid hw')
          cases hd : env.deref (.var v) with
          | var w => rfl
          | _ => exact hsub _ hd rfl

theorem expand_eq_expandVariable (v : Variable) :
    env.expand (.var v) = env.expandVariable (env.size + 1) [] v := rfl

theorem expand_of_unbound {v : Variable} (h : env.find? v = none) :
    env.expand (.var v) = .var v := expandVariable_of_unbound h _ _

theorem expand_compound (f : String) (args : List Term) :
    env.expand (.compound f args) = .compound f (args.map env.expand) := by
  rw [expand, Term.subst, Term.substArgs_eq_map]
  rfl

/-- **A term expands to what it stands for, expanded.** -/
theorem expand_deref (hA : env.Acyclic) (t : Term) : env.expand (env.deref t) = env.expand t := by
  cases t with
  | var v =>
      cases hv : env.find? v with
      | none => rw [deref_of_settled (settled_var_iff.2 hv)]
      | some t =>
          rw [expand_eq_expandVariable, expandVariable_succ List.not_mem_nil]
          have hs := settled_deref hA.noAliasCycle (.var v)
          have hsub : ∀ u, env.deref (.var v) = u → u.isVariable = false →
              env.expand u = u.subst (env.expandVariable env.size [v.id]) := by
            intro u hd hu
            refine Term.subst_congr fun w hwu => ?_
            have hvw : TransGen env.Refers v.id w.id :=
              refers_of_deref hA.noAliasCycle hd hu ⟨w, hwu, rfl⟩
            refine expandVariable_congr hA ((card_ahead_le _ _).trans (Nat.le_succ _))
              (card_ahead_le _ _) (fun j hj => nomatch hj) fun j hj hwj => ?_
            rw [List.mem_singleton.1 hj] at hwj
            exact hA _ (hvw.trans_left hwj)
          cases hd : env.deref (.var v) with
          | var w =>
              rw [hd] at hs
              exact expand_of_unbound (settled_var_iff.1 hs)
          | _ => exact hsub _ hd rfl
  | _ => rfl

/-- A variable expands to its value, expanded. -/
theorem expand_eq_of_find? (hA : env.Acyclic) {v : Variable} {t : Term}
    (h : env.find? v = some t) : env.expand (.var v) = env.expand t := by
  rw [← expand_deref hA (.var v), deref_eq_of_find? hA.noAliasCycle h, expand_deref hA]

end Bindings

end LogicTerms
