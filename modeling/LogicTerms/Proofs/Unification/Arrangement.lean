/-
**Equations can be arranged in any way.**

Two arrangements of the same equations lead to different bindings: a variable may be bound to
another or the other to it, and values may be expanded to different degrees.  What they have in
common is their solutions by trees.  A run ends with bindings whose solutions are those of the
bindings that it started from and of the equation of its terms; and since bindings always have a
solution, a run fails exactly if there is no such tree, finite or infinite.  Both are properties of
the equations alone, so it does not matter which side of an equation a term is on, nor in which
order equations are unified.

Main definitions:

* `Bindings.Ordered` — no NaN occurs in the values;
* `Valuation.Equates` — two terms without a NaN have one tree;
* `Unification.SameAnswer` — two failures, or two successes with the same solutions;
* `Reply.Rearranged` — pairs in another order, some of them with their sides changed.

Main results:

* `Unification.solves_outcome_iff` — **the solutions of a success**;
* `Unification.outcome_eq_none_iff` — **a run fails if there is no solution**;
* `Unification.sameAnswer_of_equates_iff` — runs of equations with the same solutions agree;
* `Reply.resolve_rearranged` — **equations can be arranged in any way**.
-/

import LogicTerms.Proofs.Bindings.Solutions
import LogicTerms.Proofs.Reply.Resolution
import LogicTerms.Proofs.Unification.Completeness
import LogicTerms.Proofs.Unification.Soundness

set_option relaxedAutoImplicit false
set_option autoImplicit false

namespace LogicTerms

/-! ### Terms without a NaN that have one tree -/

/-- No NaN occurs in the values. -/
def Bindings.Ordered (env : Bindings) : Prop := ∀ v t, env.find? v = some t → t.Ordered

namespace Valuation

variable {ρ : Valuation}

/-- The terms have one tree, and no NaN occurs in them. -/
def Equates (ρ : Valuation) (t u : Term) : Prop := t.tree ρ = u.tree ρ ∧ t.Ordered ∧ u.Ordered

/-- A tree shows the head of its term. -/
theorem sameHead_of_equates {t u : Term} (ht : t.isVariable = false) (hu : u.isVariable = false)
    (h : ρ.Equates t u) : t.SameHead u := by
  obtain ⟨htree, hot, -⟩ := h
  have hlabel := congrArg Tree.label htree
  cases t with
  | var v => exact nomatch ht
  | atom a =>
      cases u with
      | var w => exact nomatch hu
      | atom b => exact Tree.atom_inj htree
      | num n => exact nomatch hlabel
      | compound g bs => exact nomatch hlabel
  | num m =>
      cases u with
      | var w => exact nomatch hu
      | atom b => exact nomatch hlabel
      | num n => exact Number.equal_eq_true_iff.2 ⟨Tree.num_eq_iff.1 htree, hot⟩
      | compound g bs => exact nomatch hlabel
  | compound f as =>
      cases u with
      | var w => exact nomatch hu
      | atom b => exact nomatch hlabel
      | num n => exact nomatch hlabel
      | compound g bs =>
          obtain ⟨hfg, hargs⟩ := Tree.compound_inj htree
          have hlen := congrArg List.length hargs
          rw [Term.trees_eq_map, Term.trees_eq_map, List.length_map, List.length_map] at hlen
          exact ⟨hfg, hlen⟩

/-- **Having one tree is a matching**, as long as no NaN is around, which equals nothing. -/
theorem matching (ρ : Valuation) : Term.Matching ρ.Equates where
  symm h := ⟨h.1.symm, h.2.2, h.2.1⟩
  trans h h' := ⟨h.1.trans h'.1, h.2.1, h'.2.2⟩
  var {v w t} hid h := ⟨(congrArg ρ hid).symm.trans h.1, trivial, h.2.2⟩
  head ht hu h := sameHead_of_equates ht hu h
  args {f g as bs} h := by
    obtain ⟨htree, has, hbs⟩ := h
    obtain ⟨-, hargs⟩ := Tree.compound_inj htree
    rw [Term.trees_eq_map, Term.trees_eq_map] at hargs
    rw [Term.ordered_compound_iff] at has hbs
    have htrees : List.Forall₂ (fun t u => t.tree ρ = u.tree ρ) as bs := by
      refine List.forall₂_map_left_iff.1 (List.forall₂_map_right_iff.1 ?_)
      rw [hargs]
      exact List.forall₂_refl _
    obtain ⟨hlen, hzip⟩ := List.forall₂_iff_zip.1 htrees
    refine List.forall₂_iff_zip.2 ⟨hlen, fun {t u} hp => ?_⟩
    have hmem := List.of_mem_zip hp
    exact ⟨hzip hp, has t hmem.1, hbs u hmem.2⟩

/-- Where no NaN is around, solutions are valuations in which the bindings hold. -/
theorem holdsIn_equates_iff {env : Bindings} (ho : env.Ordered) :
    env.HoldsIn ρ.Equates ↔ ρ.Solves env := by
  constructor
  · intro h v t hv
    exact (h v t hv).1
  · intro h v t hv
    exact ⟨h v t hv, trivial, ho v t hv⟩

end Valuation

namespace Unification

variable {env : Bindings} {a b : Term} {r : Run}

/-! ### The solutions of a run -/

/-- **The solutions of a success** are those of the bindings that it started from and of the
equation of its terms. -/
theorem solves_outcome_iff (hc : env.NoAliasCycle) (ho : env.Ordered) (ha : a.Ordered)
    (hb : b.Ordered) (h : unify env a b = some r) {env' : Bindings} (hr : r.outcome = some env')
    (ρ : Valuation) : ρ.Solves env' ↔ ρ.Solves env ∧ a.tree ρ = b.tree ρ := by
  constructor
  · intro hρ
    exact (soundness ρ.congruence_tree).run h hr hρ
  · rintro ⟨hρ, hab⟩
    have hs := (Valuation.holdsIn_equates_iff ho).2 hρ
    obtain ⟨env'', hr', -, hs'⟩ := completeness ρ.matching h hc hs ⟨hab, ha, hb⟩
    rw [hr] at hr'
    cases hr'
    intro v t hv
    exact (hs' v t hv).1

/-- **A run fails if there is no solution** by trees, finite or infinite, and only then. -/
theorem outcome_eq_none_iff (hc : env.NoAliasCycle) (ho : env.Ordered) (ha : a.Ordered)
    (hb : b.Ordered) (h : unify env a b = some r) :
    r.outcome = none ↔ ¬ ∃ ρ : Valuation, ρ.Solves env ∧ a.tree ρ = b.tree ρ := by
  constructor
  · rintro hr ⟨ρ, hρ, hab⟩
    have hs := (Valuation.holdsIn_equates_iff ho).2 hρ
    obtain ⟨env', hr', -⟩ := completeness ρ.matching h hc hs ⟨hab, ha, hb⟩
    rw [hr] at hr'
    exact nomatch hr'
  · intro hnone
    cases hr : r.outcome with
    | none => rfl
    | some env' =>
        -- the bindings of a success have a solution, whether or not they have a cycle
        have hextends := outcome_extends h hr env.closed_true trivial trivial
        have hsolved := Bindings.solves_solution (hextends.noAliasCycle hc)
        exact absurd ⟨_, (solves_outcome_iff hc ho ha hb h hr _).1 hsolved⟩ hnone

/-! ### Runs of equivalent equations -/

/-- Both are failures, or successes with bindings of the same solutions. -/
def SameAnswer : Option Bindings → Option Bindings → Prop
  | none, none => True
  | some env, some env' => ∀ ρ : Valuation, ρ.Solves env ↔ ρ.Solves env'
  | _, _ => False

/-- Runs of equations that have the same solutions agree. -/
theorem sameAnswer_of_equates_iff (hc : env.NoAliasCycle) (ho : env.Ordered) {a' b' : Term}
    {r' : Run} (ha : a.Ordered) (hb : b.Ordered) (ha' : a'.Ordered) (hb' : b'.Ordered)
    (h : unify env a b = some r) (h' : unify env a' b' = some r')
    (hiff : ∀ ρ : Valuation, a.tree ρ = b.tree ρ ↔ a'.tree ρ = b'.tree ρ) :
    SameAnswer r.outcome r'.outcome := by
  have hnone : r.outcome = none ↔ r'.outcome = none := by
    rw [outcome_eq_none_iff hc ho ha hb h, outcome_eq_none_iff hc ho ha' hb' h']
    simp only [hiff]
  cases hr : r.outcome with
  | none =>
      rw [hnone.1 hr]
      trivial
  | some env₁ =>
      cases hr' : r'.outcome with
      | none =>
          rw [hnone.2 hr'] at hr
          exact nomatch hr
      | some env₂ =>
          intro ρ
          rw [solves_outcome_iff hc ho ha hb h hr, solves_outcome_iff hc ho ha' hb' h' hr', hiff]

end Unification

namespace Reply

open Unification

/-! ### Arrangements -/

/-- The same pairs in any order, each with its sides as they were or changed. -/
def Rearranged (ps qs : List (Term × Term)) : Prop :=
  ∃ l, ps.Perm l ∧ List.Forall₂ (fun p q => q = p ∨ q = p.swap) l qs

/-- What does not depend on the sides of a pair holds of all pairs of an arrangement, if it does of
all pairs of the other. -/
theorem Rearranged.forall_iff {P : Term × Term → Prop} (hP : ∀ p, P p.swap ↔ P p)
    {ps qs : List (Term × Term)} (h : Rearranged ps qs) : (∀ p ∈ ps, P p) ↔ ∀ q ∈ qs, P q := by
  obtain ⟨l, hperm, hl⟩ := h
  have hmem : (∀ p ∈ ps, P p) ↔ ∀ p ∈ l, P p := by simp only [hperm.mem_iff]
  rw [hmem]
  clear hmem hperm
  induction hl with
  | nil => simp
  | cons hpq _ ih =>
      rw [List.forall_mem_cons, List.forall_mem_cons]
      refine and_congr ?_ ih
      rcases hpq with rfl | rfl
      · exact Iff.rfl
      · exact (hP _).symm

/-- The compounds of pairs have one tree if the terms of every pair have. -/
theorem tree_compound_eq_iff (f : String) {ps : List (Term × Term)} {ρ : Valuation} :
    (Term.compound f (ps.map Prod.fst)).tree ρ = (Term.compound f (ps.map Prod.snd)).tree ρ ↔
      ∀ p ∈ ps, p.1.tree ρ = p.2.tree ρ := by
  rw [Term.tree, Term.tree, Term.trees_eq_map, Term.trees_eq_map, List.map_map, List.map_map]
  constructor
  · intro h
    exact List.map_inj_left.1 (Tree.compound_inj h).2
  · intro h
    exact congrArg (Tree.compound f) (List.map_congr_left h)

theorem ordered_compound_of_pairs (f : String) {ps : List (Term × Term)}
    (h : ∀ p ∈ ps, p.1.Ordered ∧ p.2.Ordered) :
    (Term.compound f (ps.map Prod.fst)).Ordered ∧ (Term.compound f (ps.map Prod.snd)).Ordered := by
  rw [Term.ordered_compound_iff, Term.ordered_compound_iff, List.forall_mem_map,
    List.forall_mem_map]
  exact ⟨fun p hp => (h p hp).1, fun p hp => (h p hp).2⟩

/-- **Equations can be arranged in any way.**  If resolving a reply ends for pairs without a NaN and
for another arrangement of them, under bindings without a NaN and a cycle of variables, then both
fail, or both succeed and the bindings have the same solutions by trees, finite or infinite.  So it
is with the sides of a single equation. -/
theorem resolve_rearranged {env : Bindings} (hc : env.NoAliasCycle) (ho : env.Ordered) :
    (∀ {ps qs : List (Term × Term)} {s s' : Resolution}, (∀ p ∈ ps, p.1.Ordered ∧ p.2.Ordered) →
      Rearranged ps qs → (unify ps).resolve env = some s → (unify qs).resolve env = some s' →
      ∃ o o', s.outcome = .ok o ∧ s'.outcome = .ok o' ∧ SameAnswer o o') ∧
    ∀ {a b : Term} {r r' : Run}, a.Ordered → b.Ordered → Unification.unify env a b = some r →
      Unification.unify env b a = some r' → SameAnswer r.outcome r'.outcome := by
  constructor
  · intro ps qs s s' hps hpq hs hs'
    rw [resolve_unify] at hs hs'
    obtain ⟨r, hr, rfl⟩ := Option.map_eq_some_iff.1 hs
    obtain ⟨r', hr', rfl⟩ := Option.map_eq_some_iff.1 hs'
    refine ⟨r.outcome, r'.outcome, rfl, rfl, ?_⟩
    -- the pairs of an arrangement are two compounds, of which only the solutions count
    have hqs : ∀ q ∈ qs, q.1.Ordered ∧ q.2.Ordered :=
      (hpq.forall_iff fun p => and_comm).1 hps
    obtain ⟨ha, hb⟩ := ordered_compound_of_pairs "" hps
    obtain ⟨ha', hb'⟩ := ordered_compound_of_pairs "" hqs
    refine sameAnswer_of_equates_iff hc ho ha hb ha' hb' ((unifyPairs_unify_iff "").1 hr)
      ((unifyPairs_unify_iff "").1 hr') fun ρ => ?_
    rw [tree_compound_eq_iff, tree_compound_eq_iff]
    exact hpq.forall_iff fun p => eq_comm
  · intro a b r r' ha hb hr hr'
    exact sameAnswer_of_equates_iff hc ho ha hb hb ha hr hr' fun ρ => eq_comm

/-- Two arrangements of `X = Y` and `X = f(Y)`: one binds the first variable to the second and the
other to the compound, and both make the second part of its own value. -/
theorem resolve_rearranged_cyclic :
    ∃ s s' env env', (unify [(.var ⟨"X", 1⟩, .var ⟨"Y", 2⟩),
        (.var ⟨"X", 1⟩, .compound "f" [.var ⟨"Y", 2⟩])]).resolve .empty = some s ∧
      (unify [(.compound "f" [.var ⟨"Y", 2⟩], .var ⟨"X", 1⟩),
        (.var ⟨"Y", 2⟩, .var ⟨"X", 1⟩)]).resolve .empty = some s' ∧
      s.outcome = .ok (some env) ∧ s'.outcome = .ok (some env') ∧
      env.find? ⟨"X", 1⟩ = some (.var ⟨"Y", 2⟩) ∧
      env'.find? ⟨"X", 1⟩ = some (.compound "f" [.var ⟨"Y", 2⟩]) ∧
      ∀ ρ : Valuation, ρ.Solves env ↔ ρ.Solves env' := by
  have hs : (unify [(.var ⟨"X", 1⟩, .var ⟨"Y", 2⟩),
      (.var ⟨"X", 1⟩, .compound "f" [.var ⟨"Y", 2⟩])]).resolve .empty =
      some ⟨[.bound ⟨"X", 1⟩ (.var ⟨"Y", 2⟩), .bound ⟨"Y", 2⟩ (.compound "f" [.var ⟨"Y", 2⟩])],
        .ok (some ((Bindings.empty.assign ⟨"X", 1⟩ (.var ⟨"Y", 2⟩)).assign ⟨"Y", 2⟩
          (.compound "f" [.var ⟨"Y", 2⟩])))⟩ := rfl
  have hs' : (unify [(.compound "f" [.var ⟨"Y", 2⟩], .var ⟨"X", 1⟩),
      (.var ⟨"Y", 2⟩, .var ⟨"X", 1⟩)]).resolve .empty =
      some ⟨[.bound ⟨"X", 1⟩ (.compound "f" [.var ⟨"Y", 2⟩]),
          .bound ⟨"Y", 2⟩ (.compound "f" [.var ⟨"Y", 2⟩])],
        .ok (some ((Bindings.empty.assign ⟨"X", 1⟩ (.compound "f" [.var ⟨"Y", 2⟩])).assign
          ⟨"Y", 2⟩ (.compound "f" [.var ⟨"Y", 2⟩])))⟩ := rfl
  have hordered : ∀ p ∈ [((.var ⟨"X", 1⟩, .var ⟨"Y", 2⟩) : Term × Term),
      (.var ⟨"X", 1⟩, .compound "f" [.var ⟨"Y", 2⟩])], p.1.Ordered ∧ p.2.Ordered := by
    simp [Term.Ordered, Term.OrderedArgs]
  have hrearranged : Rearranged [(.var ⟨"X", 1⟩, .var ⟨"Y", 2⟩),
      (.var ⟨"X", 1⟩, .compound "f" [.var ⟨"Y", 2⟩])]
      [(.compound "f" [.var ⟨"Y", 2⟩], .var ⟨"X", 1⟩), (.var ⟨"Y", 2⟩, .var ⟨"X", 1⟩)] :=
    ⟨_, .swap _ _ [], .cons (.inr rfl) (.cons (.inr rfl) .nil)⟩
  obtain ⟨o, o', ho, ho', hsame⟩ := (resolve_rearranged Bindings.noAliasCycle_empty
    fun v t hv => by cases hv).1 hordered hrearranged hs hs'
  cases ho
  cases ho'
  exact ⟨_, _, _, _, hs, hs', rfl, rfl, rfl, rfl, hsame⟩

end Reply

end LogicTerms
