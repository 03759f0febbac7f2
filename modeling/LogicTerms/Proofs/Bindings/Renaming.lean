/-
**Renamed variables.**

Variables are known by their ids, and all that is ever asked of two ids is whether they are equal.
So nothing depends on which ids were drawn, nor on the names of variables: if ids are exchanged for
others, different ones for different ones, and names for any names, then what was true of terms and
bindings is true of the renamed ones.

Renaming is a relation here, since the names are free at every place where a variable occurs.  There
are as many ids before as after, so an injective map of ids has an inverse, and what is renamed one
way is renamed the other way by it; so everything is shown in one direction only.

Main definitions:

* `Term.Renamed` — terms that differ in ids, by a given map, and in names;
* `Bindings.Renamed` — bindings of renamed variables to renamed terms;
* `Bindings.Ends` — the walk from a term ends;
* `Matches` — what holds of something holds of something related, and the other way round.

Main results:

* `Term.Renamed.symm`, `Bindings.Renamed.symm` — renaming can be undone;
* `Bindings.exists_renamed` — all bindings can be renamed;
* `Bindings.Renamed.deref`, `Bindings.Renamed.ends_iff` — renamed variables stand for renamed terms;
* `Bindings.Renamed.expand`, `Bindings.Renamed.matches_expands` — **renamed terms have renamed
  expansions**.
-/

import LogicTerms.Proofs.Bindings.Expansion
import Mathlib.Data.Fintype.EquivFin
import Mathlib.Data.FinEnum

set_option relaxedAutoImplicit false
set_option autoImplicit false

namespace LogicTerms

/-! ### Related outcomes -/

section Relations

variable {α β γ δ : Type} {R : α → β → Prop}

/-- Whatever the first holds of is related to something that the second holds of, and the other way
round. -/
def Matches (R : α → β → Prop) (P : α → Prop) (Q : β → Prop) : Prop :=
  (∀ x, P x → ∃ y, Q y ∧ R x y) ∧ ∀ y, Q y → ∃ x, P x ∧ R x y

theorem rel_cases {x : Option α} {y : Option β} (h : Option.Rel R x y) :
    (x = none ∧ y = none) ∨ ∃ a b, x = some a ∧ y = some b ∧ R a b := by
  cases h with
  | some h => exact .inr ⟨_, _, rfl, rfl, h⟩
  | none => exact .inl ⟨rfl, rfl⟩

/-- Related outcomes match, also under conditions that hold together. -/
theorem matches_of_rel {x : Option α} {y : Option β} {p q : Prop} (h : Option.Rel R x y)
    (hpq : p ↔ q) : Matches R (fun a => x = some a ∧ p) (fun b => y = some b ∧ q) := by
  obtain ⟨rfl, rfl⟩ | ⟨a, b, rfl, rfl, hab⟩ := rel_cases h
  · constructor
    · rintro _ ⟨⟨⟩, -⟩
    · rintro _ ⟨⟨⟩, -⟩
  · constructor
    · rintro _ ⟨⟨⟩, hp⟩
      exact ⟨b, ⟨rfl, hpq.1 hp⟩, hab⟩
    · rintro _ ⟨⟨⟩, hq⟩
      exact ⟨a, ⟨rfl, hpq.2 hq⟩, hab⟩

theorem rel_symm {S : β → α → Prop} (hRS : ∀ x y, R x y → S y x) {x : Option α} {y : Option β}
    (h : Option.Rel R x y) : Option.Rel S y x := by
  cases h with
  | some h => exact .some (hRS _ _ h)
  | none => exact .none

/-- What can be found for each member of a list can be found for all of them. -/
theorem exists_forall₂ {Q : β → δ → Prop} {S : γ → δ → Prop} {as : List α} {bs : List γ}
    {as' : List β} (h : List.Forall₂ (fun a b => ∀ a', R a a' → ∃ b', Q a' b' ∧ S b b') as bs)
    (hR : List.Forall₂ R as as') : ∃ bs', List.Forall₂ Q as' bs' ∧ List.Forall₂ S bs bs' := by
  induction h generalizing as' with
  | nil =>
      cases hR
      exact ⟨[], .nil, .nil⟩
  | cons hab _ ih =>
      cases hR with
      | cons ha hR =>
          obtain ⟨b', hQ, hS⟩ := hab _ ha
          obtain ⟨bs', hQs, hSs⟩ := ih hR
          exact ⟨b' :: bs', .cons hQ hQs, .cons hS hSs⟩

end Relations

/-! ### Terms -/

namespace Term

/-- The second term is the first with the ids of variables exchanged, and any names. -/
inductive Renamed (ρ : UInt64 → UInt64) : Term → Term → Prop
  | var {v w : Variable} : w.id = ρ v.id → Renamed ρ (.var v) (.var w)
  | atom (a : String) : Renamed ρ (.atom a) (.atom a)
  | num (n : Number) : Renamed ρ (.num n) (.num n)
  | compound (f : String) {as bs : List Term} : List.Forall₂ (Renamed ρ) as bs →
      Renamed ρ (.compound f as) (.compound f bs)

namespace Renamed

variable {ρ : UInt64 → UInt64} {t t' : Term}

/-- Induction on renamed terms, with a hypothesis for every two arguments. -/
theorem induct {motive : (t t' : Term) → Renamed ρ t t' → Prop}
    (var : ∀ (v w : Variable) (hid : w.id = ρ v.id), motive (.var v) (.var w) (.var hid))
    (atom : ∀ a, motive (.atom a) (.atom a) (.atom a))
    (num : ∀ n, motive (.num n) (.num n) (.num n))
    (compound : ∀ f as bs (h : List.Forall₂ (Renamed ρ) as bs),
      List.Forall₂ (fun a b => ∃ h, motive a b h) as bs →
      motive (.compound f as) (.compound f bs) (.compound f h))
    (h : Renamed ρ t t') : motive t t' h := by
  induction t using Term.induct generalizing t' with
  | var v =>
      cases h with
      | @var _ w hid => exact var v w hid
  | atom a =>
      cases h
      exact atom a
  | num n =>
      cases h
      exact num n
  | compound f as ih =>
      cases h with
      | @compound _ _ bs hargs =>
          refine compound f as bs hargs ?_
          obtain ⟨hlen, hzip⟩ := List.forall₂_iff_zip.1 hargs
          refine List.forall₂_iff_zip.2 ⟨hlen, fun hp => ⟨hzip hp, ?_⟩⟩
          exact ih _ (List.of_mem_zip hp).1 (hzip hp)

/-- A renaming can be undone. -/
theorem symm {ρ : Equiv.Perm UInt64} (h : Renamed ρ t t') : Renamed ρ.symm t' t := by
  induction h using induct with
  | var v w hid => exact .var (by rw [hid, Equiv.symm_apply_apply])
  | atom a => exact .atom a
  | num n => exact .num n
  | compound f as bs _ ih => exact .compound f (ih.imp fun _ _ h => h.elim fun _ h => h).flip

theorem isVariable_eq (h : Renamed ρ t t') : t'.isVariable = t.isVariable := by
  cases h <;> rfl

/-- Renamed terms are left if variables are replaced by renamed terms. -/
theorem subst {σ σ' : Variable → Term} (h : Renamed ρ t t')
    (hσ : ∀ v w : Variable, w.id = ρ v.id → Renamed ρ (σ v) (σ' w)) :
    Renamed ρ (t.subst σ) (t'.subst σ') := by
  induction h using induct with
  | var v w hid => exact hσ v w hid
  | atom a => exact .atom a
  | num n => exact .num n
  | compound f as bs _ ih =>
      rw [Term.subst, Term.subst, substArgs_eq_map, substArgs_eq_map]
      refine .compound f ?_
      rw [List.forall₂_map_left_iff, List.forall₂_map_right_iff]
      exact ih.imp fun _ _ h => h.elim fun _ h => h

end Renamed

/-- Every term can be renamed. -/
theorem exists_renamed (ρ : UInt64 → UInt64) (t : Term) : ∃ t', Renamed ρ t t' := by
  induction t using induct with
  | var v => exact ⟨.var ⟨v.name, ρ v.id⟩, .var rfl⟩
  | atom a => exact ⟨.atom a, .atom a⟩
  | num n => exact ⟨.num n, .num n⟩
  | compound f as ih =>
      choose! g hg using ih
      refine ⟨.compound f (as.map g), .compound f ?_⟩
      rw [List.forall₂_map_right_iff, List.forall₂_same]
      exact hg

end Term

/-! ### Bindings -/

namespace Bindings

/-- The second bindings bind the renamed variables, and no others, to the renamed terms; which
variables can be asked for by which names is left open. -/
def Renamed (ρ : UInt64 → UInt64) (env env' : Bindings) : Prop :=
  ∀ i, Option.Rel (Term.Renamed ρ) (env.values.find? i) (env'.values.find? (ρ i))

theorem renamed_empty (ρ : UInt64 → UInt64) : Renamed ρ empty empty := fun _ => .none

/-- An entry is found by its renamed key. -/
theorem lookup_renamed {ρ : UInt64 → UInt64} (hρ : Function.Injective ρ) (g : Term → Term)
    (entries : List (UInt64 × Term)) (i : UInt64) :
    (entries.map fun e => (ρ e.1, g e.2)).lookup (ρ i) = (entries.lookup i).map g := by
  induction entries with
  | nil => rfl
  | cons e entries ih =>
      obtain ⟨j, t⟩ := e
      by_cases hij : i = j
      · rw [hij, List.map_cons, List.lookup_cons_self, List.lookup_cons_self, Option.map_some]
      · rw [List.map_cons, Dictionary.lookup_cons_of_ne _ _ (hρ.ne hij),
          Dictionary.lookup_cons_of_ne _ _ hij, ih]

/-- All bindings can be renamed. -/
theorem exists_renamed {ρ : UInt64 → UInt64} (hρ : Function.Injective ρ) (env : Bindings) :
    ∃ env', env.Renamed ρ env' := by
  choose g hg using Term.exists_renamed ρ
  have hkeys : (env.values.entries.map fun e => (ρ e.1, g e.2)).map Prod.fst =
      (env.values.entries.map Prod.fst).map ρ := by
    rw [List.map_map, List.map_map]
    rfl
  refine ⟨⟨⟨_, hkeys ▸ env.values.distinct.map hρ⟩, env.names⟩, fun i => ?_⟩
  rw [Dictionary.find?, Dictionary.find?, lookup_renamed hρ]
  cases env.values.entries.lookup i with
  | some t => exact .some (hg t)
  | none => exact .none

/-- The walk from the term ends. -/
def Ends (env : Bindings) (t : Term) : Prop := ∃ n u, env.Follows n t u ∧ env.Settled u

/-- Without a cycle of variables every walk ends. -/
theorem ends_of_noAliasCycle {env : Bindings} (hc : env.NoAliasCycle) (t : Term) : env.Ends t := by
  obtain ⟨n, -, hf, hs⟩ := follows_deref hc t
  exact ⟨n, _, hf, hs⟩

theorem follow_zero (env : Bindings) (t : Term) : env.follow 0 t = t := by
  cases t <;> rfl

namespace Renamed

variable {ρ : Equiv.Perm UInt64} {env env' : Bindings} {v v' : Variable} {t t' u : Term}

/-- A renaming can be undone. -/
theorem symm (h : env.Renamed ρ env') : env'.Renamed ρ.symm env := by
  intro i
  have hi := h (ρ.symm i)
  rw [Equiv.apply_symm_apply] at hi
  exact rel_symm (fun _ _ => Term.Renamed.symm) hi

/-- Renamed variables are both unbound, or bound to renamed terms. -/
theorem find?_cases (h : env.Renamed ρ env') (hv : v'.id = ρ v.id) :
    (env.find? v = none ∧ env'.find? v' = none) ∨
      ∃ t t', env.find? v = some t ∧ env'.find? v' = some t' ∧ t.Renamed ρ t' := by
  rw [Bindings.find?, Bindings.find?, hv]
  exact rel_cases (h v.id)

theorem exists_find? (h : env.Renamed ρ env') (hv : v'.id = ρ v.id) (ht : env.find? v = some t) :
    ∃ t', env'.find? v' = some t' ∧ t.Renamed ρ t' := by
  obtain ⟨hnone, -⟩ | ⟨u, t', hu, ht', hrenamed⟩ := h.find?_cases hv
  · rw [hnone] at ht
    cases ht
  · rw [hu] at ht
    cases ht
    exact ⟨t', ht', hrenamed⟩

theorem find?_eq_none_iff (h : env.Renamed ρ env') (hv : v'.id = ρ v.id) :
    env'.find? v' = none ↔ env.find? v = none := by
  obtain ⟨hnone, hnone'⟩ | ⟨t, t', ht, ht', -⟩ := h.find?_cases hv
  · exact iff_of_true hnone' hnone
  · simp [ht, ht']

/-- A renamed binding can be added to each. -/
theorem assign (h : env.Renamed ρ env') (hv : v'.id = ρ v.id) (ht : t.Renamed ρ t') :
    (env.assign v t).Renamed ρ (env'.assign v' t') := by
  intro i
  by_cases hi : i = v.id
  · have hleft : (env.assign v t).values.find? i = some t :=
      find?_assign_self (w := ⟨v.name, i⟩) t hi
    have hright : (env'.assign v' t').values.find? (ρ i) = some t' :=
      find?_assign_self (w := ⟨v.name, ρ i⟩) t' (by rw [hv, hi])
    rw [hleft, hright]
    exact .some ht
  · have hleft : (env.assign v t).values.find? i = env.values.find? i :=
      find?_assign_of_ne (w := ⟨v.name, i⟩) t hi
    have hright : (env'.assign v' t').values.find? (ρ i) = env'.values.find? (ρ i) :=
      find?_assign_of_ne (w := ⟨v.name, ρ i⟩) t' (by rw [hv]; exact ρ.injective.ne hi)
    rw [hleft, hright]
    exact h i

theorem mem_boundIds (h : env.Renamed ρ env') {i : UInt64} (hi : i ∈ env.boundIds) :
    ρ i ∈ env'.boundIds := by
  obtain ⟨t, ht⟩ := mem_boundIds_iff.1 hi
  have hid : (⟨"", ρ i⟩ : Variable).id = ρ (⟨"", i⟩ : Variable).id := rfl
  obtain ⟨t', ht', -⟩ := h.exists_find? hid ht
  exact mem_boundIds_iff.2 ⟨t', ht'⟩

/-- The bound variables are the renamed ones. -/
theorem boundIds_eq (h : env.Renamed ρ env') : env'.boundIds = env.boundIds.image ρ := by
  ext j
  rw [Finset.mem_image]
  constructor
  · intro hj
    exact ⟨ρ.symm j, h.symm.mem_boundIds hj, ρ.apply_symm_apply j⟩
  · rintro ⟨i, hi, rfl⟩
    exact h.mem_boundIds hi

theorem size_eq (h : env.Renamed ρ env') : env'.size = env.size := by
  rw [← card_boundIds, ← card_boundIds, h.boundIds_eq, Finset.card_image_of_injective _ ρ.injective]

/-! ### What renamed variables stand for -/

theorem follow (h : env.Renamed ρ env') (steps : ℕ) (ht : t.Renamed ρ t') :
    (env.follow steps t).Renamed ρ (env'.follow steps t') := by
  induction steps generalizing t t' with
  | zero =>
      rw [follow_zero, follow_zero]
      exact ht
  | succ steps ih =>
      cases ht with
      | @var v w hid =>
          rw [Bindings.follow, Bindings.follow]
          obtain ⟨hv, hw⟩ | ⟨u, u', hv, hw, hu⟩ := h.find?_cases hid
          · rw [hv, hw]
            exact .var hid
          · rw [hv, hw]
            exact ih hu
      | atom a => exact .atom a
      | num n => exact .num n
      | compound f hargs => exact .compound f hargs

/-- **Renamed terms stand for renamed terms.** -/
theorem deref (h : env.Renamed ρ env') (ht : t.Renamed ρ t') :
    (env.deref t).Renamed ρ (env'.deref t') := by
  cases ht with
  | @var v w hid =>
      obtain ⟨hv, hw⟩ | ⟨u, u', hv, hw, hu⟩ := h.find?_cases hid
      · rw [deref_of_settled (settled_var_iff.2 hv), deref_of_settled (settled_var_iff.2 hw)]
        exact .var hid
      · rw [deref_of_find? hv, deref_of_find? hw, h.size_eq]
        exact h.follow env.size hu
  | atom a => exact .atom a
  | num n => exact .num n
  | compound f hargs => exact .compound f hargs

theorem settled (h : env.Renamed ρ env') (ht : t.Renamed ρ t') (hs : env.Settled t) :
    env'.Settled t' := by
  cases ht with
  | var hid => exact settled_var_iff.2 ((h.find?_eq_none_iff hid).2 (settled_var_iff.1 hs))
  | _ =>
      rintro x ⟨⟩

theorem exists_follows (h : env.Renamed ρ env') {n : ℕ} (hf : env.Follows n t u)
    (ht : t.Renamed ρ t') : ∃ u', env'.Follows n t' u' ∧ u.Renamed ρ u' := by
  induction hf generalizing t' with
  | here t => exact ⟨t', .here t', ht⟩
  | step hv _ ih =>
      cases ht with
      | var hid =>
          obtain ⟨s, hs, hrenamed⟩ := h.exists_find? hid hv
          obtain ⟨u', hu', hu⟩ := ih hrenamed
          exact ⟨u', .step hs hu', hu⟩

theorem ends (h : env.Renamed ρ env') (ht : t.Renamed ρ t') (he : env.Ends t) : env'.Ends t' := by
  obtain ⟨n, u, hf, hs⟩ := he
  obtain ⟨u', hf', hu⟩ := h.exists_follows hf ht
  exact ⟨n, u', hf', h.settled hu hs⟩

/-- Renamed walks end where the others do. -/
theorem ends_iff (h : env.Renamed ρ env') (ht : t.Renamed ρ t') : env'.Ends t' ↔ env.Ends t :=
  ⟨h.symm.ends ht.symm, h.ends ht⟩

/-! ### Expansions of renamed terms -/

theorem mem_map_iff {within : List UInt64} (hv : v'.id = ρ v.id) :
    v'.id ∈ within.map ρ ↔ v.id ∈ within := by
  rw [hv, List.mem_map_of_injective ρ.injective]

theorem expandVariable (h : env.Renamed ρ env') (depth : ℕ) (within : List UInt64)
    (hv : v'.id = ρ v.id) :
    (env.expandVariable depth within v).Renamed ρ
      (env'.expandVariable depth (within.map ρ) v') := by
  induction depth generalizing within v v' with
  | zero => exact .var hv
  | succ depth ih =>
      by_cases hm : v.id ∈ within
      · rw [expandVariable_of_mem hm, expandVariable_of_mem ((mem_map_iff hv).2 hm)]
        exact .var hv
      · rw [expandVariable_succ hm, expandVariable_succ (mt (mem_map_iff hv).1 hm)]
        have hsubst : ∀ {t t' : Term}, t.Renamed ρ t' →
            (t.subst (env.expandVariable depth (v.id :: within))).Renamed ρ
              (t'.subst (env'.expandVariable depth (v'.id :: within.map ρ))) := by
          intro t t' ht
          rw [hv, ← List.map_cons]
          exact ht.subst fun x y hxy => ih (v.id :: within) hxy
        have hd : (env.deref (.var v)).Renamed ρ (env'.deref (.var v')) := h.deref (.var hv)
        generalize env.deref (.var v) = t at hd ⊢
        generalize env'.deref (.var v') = t' at hd ⊢
        cases hd with
        | var hid => exact .var hid
        | atom a => exact .atom a
        | num n => exact .num n
        | compound f hargs => exact hsubst (.compound f hargs)

/-- **Renamed terms have renamed expansions.** -/
theorem expand (h : env.Renamed ρ env') (ht : t.Renamed ρ t') :
    (env.expand t).Renamed ρ (env'.expand t') := by
  rw [Bindings.expand, Bindings.expand, h.size_eq]
  exact ht.subst fun v w hid => h.expandVariable (env.size + 1) [] hid

/-- The recursion makes renamed terms of renamed terms, where it has a result. -/
theorem exists_expands (h : env.Renamed ρ env') {within : List UInt64} (he : env.Expands within t u)
    (ht : t.Renamed ρ t') : ∃ u', env'.Expands (within.map ρ) t' u' ∧ u.Renamed ρ u' := by
  induction he generalizing t' with
  | inside hm =>
      cases ht with
      | var hid => exact ⟨_, .inside ((mem_map_iff hid).2 hm), .var hid⟩
  | @unbound within n v w hm hf hw =>
      cases ht with
      | var hid =>
          obtain ⟨u', hf', hu⟩ := h.exists_follows hf (.var hid)
          cases hu with
          | var hid' =>
              exact ⟨_, .unbound (mt (mem_map_iff hid).1 hm) hf' ((h.find?_eq_none_iff hid').2 hw),
                .var hid'⟩
  | @value within n v s u hm hf hs _ ih =>
      cases ht with
      | @var _ v' hid =>
          obtain ⟨s', hf', hs'⟩ := h.exists_follows hf (.var hid)
          obtain ⟨u', hu', hu⟩ := ih hs'
          rw [List.map_cons, ← hid] at hu'
          exact ⟨u', .value (mt (mem_map_iff hid).1 hm) hf' (hs'.isVariable_eq.trans hs) hu', hu⟩
  | atom a =>
      cases ht
      exact ⟨_, .atom a, .atom a⟩
  | num n =>
      cases ht
      exact ⟨_, .num n, .num n⟩
  | @compound within f as bs hlen _ ih =>
      cases ht with
      | @compound _ _ as' hargs =>
          have hall : List.Forall₂ (fun a b => ∀ a', a.Renamed ρ a' →
              ∃ b', env'.Expands (within.map ρ) a' b' ∧ b.Renamed ρ b') as bs :=
            List.forall₂_iff_zip.2 ⟨hlen, fun hp _ ha => ih _ hp ha⟩
          obtain ⟨bs', hexpands, hbs⟩ := exists_forall₂ hall hargs
          obtain ⟨hlen', hzip⟩ := List.forall₂_iff_zip.1 hexpands
          exact ⟨_, .compound f hlen' fun p hp => hzip hp, .compound f hbs⟩

/-- **The recursion has a result for a renamed term where it has one for the term**, and these
results are renamed. -/
theorem matches_expands (h : env.Renamed ρ env') (ht : t.Renamed ρ t') :
    Matches (Term.Renamed ρ) (env.Expands [] t) (env'.Expands [] t') := by
  constructor
  · intro u hu
    exact h.exists_expands hu ht
  · intro u' hu'
    obtain ⟨u, hu, hrenamed⟩ := h.symm.exists_expands hu' ht.symm
    exact ⟨u, hu, hrenamed.symm⟩

end Renamed

end Bindings

end LogicTerms
