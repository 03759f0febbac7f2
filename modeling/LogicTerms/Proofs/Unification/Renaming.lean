/-
**Unification of renamed terms.**

A clause is used again with fresh variables in place of its own, and what comes of that should not
depend on which ids the fresh variables have, nor on what they are called.  It does not: a run on
renamed terms under renamed bindings takes the same steps, and so it fails where the other fails,
binds the renamed variables where the other binds, and ends where the other ends.

A run need not end for two reasons.  It may come back to a state that it was in before, and then it
has no outcome within any depth; and, if the bindings lead a variable back to itself, it may follow
variables around that cycle, at which a state is said to stall.  Renamed runs do either together.

Main definitions:

* `Unification.Event.Renamed`, `Unification.Run.Renamed` — renamed records and outcomes;
* `Unification.State.Renamed`, `Unification.State.Stalls` — renamed states, and states that follow
  variables for ever;
* `Unification.Returns`, `Reply.Returns` — what a run, and the resolution of a reply, come to;
* `Reply.Renamed`, `Reply.Resolution.Renamed` — renamed replies, and what comes of them.

Main results:

* `Unification.unifyWithin_rel` — within any depth, renamed runs end in the same way;
* `Unification.Calls.exists_renamed`, `Unification.State.Renamed.stalls` — renamed runs meet renamed
  states, and stall together;
* `Unification.returns_iff` — without a cycle of variables no run stalls;
* `Unification.unify_of_renamed` — **nothing depends on ids or names**.
-/

import LogicTerms.Proofs.Bindings.Renaming
import LogicTerms.Proofs.Unification.Trace

set_option relaxedAutoImplicit false
set_option autoImplicit false

namespace LogicTerms

open Relation

namespace Unification

/-! ### Renamed runs -/

/-- The same event of renamed terms. -/
inductive Event.Renamed (ρ : UInt64 → UInt64) : Event → Event → Prop
  | bound {v w : Variable} {t u : Term} : w.id = ρ v.id → t.Renamed ρ u →
      Event.Renamed ρ (.bound v t) (.bound w u)
  | mismatch {a a' b b' : Term} : a.Renamed ρ a' → b.Renamed ρ b' →
      Event.Renamed ρ (.mismatch a b) (.mismatch a' b')
  | functorMismatch (f : String) (m : Nat) (g : String) (n : Nat) :
      Event.Renamed ρ (.functorMismatch f m g n) (.functorMismatch f m g n)

/-- Renamed events in the same order, and both a failure or both a success with renamed bindings. -/
structure Run.Renamed (ρ : UInt64 → UInt64) (r r' : Run) : Prop where
  events : List.Forall₂ (Event.Renamed ρ) r.events r'.events
  outcome : Option.Rel (Bindings.Renamed ρ) r.outcome r'.outcome

/-- Renamed terms on both sides. -/
def PairRenamed (ρ : UInt64 → UInt64) (p p' : Term × Term) : Prop :=
  p.1.Renamed ρ p'.1 ∧ p.2.Renamed ρ p'.2

/-- Renamed terms under renamed bindings. -/
structure State.Renamed (ρ : UInt64 → UInt64) (s s' : State) : Prop where
  env : s.env.Renamed ρ s'.env
  left : s.left.Renamed ρ s'.left
  right : s.right.Renamed ρ s'.right

variable {ρ : Equiv.Perm UInt64} {env env' : Bindings} {a a' b b' t t' : Term} {v v' : Variable}
  {pairs pairs' : List (Term × Term)} {r : Run}

theorem renamed_ok (h : env.Renamed ρ env') : (Run.ok env).Renamed ρ (.ok env') :=
  ⟨.nil, .some h⟩

theorem Run.Renamed.after {r r' : Run} (h : r.Renamed ρ r') {events events' : List Event}
    (hevents : List.Forall₂ (Event.Renamed ρ) events events') :
    (r.after events).Renamed ρ (r'.after events') :=
  ⟨List.rel_append hevents h.events, h.outcome⟩

/-! ### Steps -/

/-- A bound variable is not bound again, and nothing is recorded. -/
theorem bindVariable_of_bound (hv : env.find? v ≠ none) : bindVariable env v t = ⟨[], none⟩ := by
  have hbound : env.isBound v = true := by
    rw [← Bool.not_eq_false, Bindings.isBound_eq_false_iff.not]
    exact hv
  rw [bindVariable, Bindings.bind, if_pos hbound]

theorem bindVariable_renamed (h : env.Renamed ρ env') (hv : v'.id = ρ v.id) (ht : t.Renamed ρ t') :
    (bindVariable env v t).Renamed ρ (bindVariable env' v' t') := by
  by_cases hn : env.find? v = none
  · have hn' : env'.find? v' = none := (h.find?_eq_none_iff hv).2 hn
    rw [bindVariable, bindVariable, Bindings.bind_eq_ok_iff.2 ⟨hn, rfl⟩,
      Bindings.bind_eq_ok_iff.2 ⟨hn', rfl⟩]
    exact ⟨.cons (.bound hv ht) .nil, .some (h.assign hv ht)⟩
  · rw [bindVariable_of_bound hn, bindVariable_of_bound (mt (h.find?_eq_none_iff hv).1 hn)]
    exact ⟨.nil, .none⟩

theorem unifyUnbound_renamed (h : env.Renamed ρ env') (hv : v'.id = ρ v.id) (ht : t.Renamed ρ t') :
    (unifyUnbound env v t).Renamed ρ (unifyUnbound env' v' t') := by
  cases ht with
  | @var w w' hw =>
      have hid : w'.id = v'.id ↔ w.id = v.id := by rw [hw, hv, ρ.injective.eq_iff]
      rw [unifyUnbound, unifyUnbound]
      by_cases heq : w.id = v.id
      · rw [if_pos heq, if_pos (hid.2 heq)]
        exact renamed_ok h
      · rw [if_neg heq, if_neg (mt hid.1 heq)]
        exact bindVariable_renamed h hv (.var hw)
  | atom c => exact bindVariable_renamed h hv (.atom c)
  | num n => exact bindVariable_renamed h hv (.num n)
  | compound f hargs => exact bindVariable_renamed h hv (.compound f hargs)

theorem length_eq_of_renamed {as as' bs bs' : List Term}
    (has : List.Forall₂ (Term.Renamed ρ) as as') (hbs : List.Forall₂ (Term.Renamed ρ) bs bs')
    (h : as.length = bs.length) :
    as'.length = bs'.length :=
  has.length_eq.symm.trans (h.trans hbs.length_eq)

/-- Renamed terms agree as far as the others do. -/
theorem sameHead_renamed (ha : a.Renamed ρ a') (hb : b.Renamed ρ b') (h : a.SameHead b) :
    a'.SameHead b' := by
  cases ha with
  | compound f has =>
      cases hb with
      | compound g hbs => exact ⟨h.1, length_eq_of_renamed has hbs h.2⟩
      | _ => exact h
  | _ => cases hb <;> exact h

theorem clashEvent_renamed (ha : a.Renamed ρ a') (hb : b.Renamed ρ b') :
    (clashEvent a b).Renamed ρ (clashEvent a' b') := by
  have hmismatch : Event.Renamed ρ (.mismatch a b) (.mismatch a' b') := .mismatch ha hb
  cases ha with
  | @compound f as as' has =>
      cases hb with
      | @compound g bs bs' hbs =>
          rw [clashEvent, clashEvent, has.length_eq, hbs.length_eq]
          exact .functorMismatch f as'.length g bs'.length
      | _ => exact hmismatch
  | _ => exact hmismatch

/-- Renamed pairs are unified alike if every two terms are. -/
theorem unifyPairs_rel {step step' : Bindings → Term → Term → Option Run}
    (hstep : ∀ {env env' : Bindings} {a a' b b' : Term}, env.Renamed ρ env' → a.Renamed ρ a' →
      b.Renamed ρ b' → Option.Rel (Run.Renamed ρ) (step env a b) (step' env' a' b'))
    (h : env.Renamed ρ env') (hpairs : List.Forall₂ (PairRenamed ρ) pairs pairs') :
    Option.Rel (Run.Renamed ρ) (unifyPairs step env pairs) (unifyPairs step' env' pairs') := by
  induction hpairs generalizing env env' with
  | nil => exact .some (renamed_ok h)
  | @cons p p' pairs pairs' hp _ ih =>
      obtain ⟨a, b⟩ := p
      obtain ⟨a', b'⟩ := p'
      rw [unifyPairs, unifyPairs]
      obtain ⟨hs, hs'⟩ | ⟨s, s', hs, hs', hrun⟩ := rel_cases (hstep h hp.1 hp.2)
      · rw [hs, hs']
        exact .none
      · rw [hs, hs']
        obtain ⟨events, outcome⟩ := s
        obtain ⟨events', outcome'⟩ := s'
        obtain ⟨hevents, houtcome⟩ := hrun
        cases houtcome with
        | none => exact .some ⟨hevents, .none⟩
        | some h₁ =>
            obtain ⟨hr, hr'⟩ | ⟨r, r', hr, hr', hrun⟩ := rel_cases (ih h₁)
            · simp only [hr, hr', Option.map_none]
              exact .none
            · simp only [hr, hr', Option.map_some]
              exact .some (hrun.after hevents)

theorem zip_renamed {as as' bs bs' : List Term} (has : List.Forall₂ (Term.Renamed ρ) as as')
    (hbs : List.Forall₂ (Term.Renamed ρ) bs bs') :
    List.Forall₂ (PairRenamed ρ) (as.zip bs) (as'.zip bs') := by
  induction has generalizing bs bs' with
  | nil => exact .nil
  | cons ha _ ih =>
      cases hbs with
      | nil => exact .nil
      | cons hb hbs => exact .cons ⟨ha, hb⟩ (ih hbs)

/-- What a renamed variable stands for, if it is a variable. -/
theorem exists_var_of_renamed {w : Variable} (h : (Term.var w).Renamed ρ t') :
    ∃ w', t' = .var w' ∧ w'.id = ρ w.id := by
  cases h with
  | var hid => exact ⟨_, rfl, hid⟩

/-- **Within any depth, renamed runs end in the same way**, or not at all. -/
theorem unifyWithin_rel (depth : ℕ) (h : env.Renamed ρ env') (ha : a.Renamed ρ a')
    (hb : b.Renamed ρ b') :
    Option.Rel (Run.Renamed ρ) (unifyWithin depth env a b) (unifyWithin depth env' a' b') := by
  induction depth generalizing env env' a a' b b' with
  | zero => exact .none
  | succ depth ih =>
      cases situation env a b with
      | @unbound v w b hd =>
          cases ha with
          | var hid =>
              obtain ⟨w', hd', hw⟩ := exists_var_of_renamed (hd ▸ h.deref (.var hid))
              rw [unifyWithin_unbound depth hd, unifyWithin_unbound depth hd']
              exact .some (unifyUnbound_renamed h hw (h.deref hb))
      | @resolved v c b hd hc =>
          cases ha with
          | var hid =>
              have hc' := hd ▸ h.deref (.var hid)
              rw [unifyWithin_resolved depth hd hc,
                unifyWithin_resolved depth rfl (hc'.isVariable_eq.trans hc)]
              exact ih h hc' hb
      | @swapped a w hvar =>
          cases hb with
          | var hid =>
              rw [unifyWithin_swapped depth hvar,
                unifyWithin_swapped depth (ha.isVariable_eq.trans hvar)]
              exact ih h (.var hid) ha
      | atoms c =>
          cases ha
          cases hb
          rw [unifyWithin_atoms, unifyWithin_atoms]
          exact .some (renamed_ok h)
      | nums hmn =>
          cases ha
          cases hb
          rw [unifyWithin_nums depth hmn, unifyWithin_nums depth hmn]
          exact .some (renamed_ok h)
      | @compounds f as bs hlen =>
          cases ha with
          | @compound _ _ as' has =>
              cases hb with
              | @compound _ _ bs' hbs =>
                  have hlen' := length_eq_of_renamed has hbs hlen
                  rw [unifyWithin_compounds depth f hlen, unifyWithin_compounds depth f hlen']
                  exact unifyPairs_rel ih h (zip_renamed has hbs)
      | clash hvar hvar' hne =>
          have hne' : ¬ a'.SameHead b' := fun hsame => hne (sameHead_renamed ha.symm hb.symm hsame)
          rw [unifyWithin_clashEvent depth env hvar hvar' hne,
            unifyWithin_clashEvent depth env' (ha.isVariable_eq.trans hvar)
              (hb.isVariable_eq.trans hvar') hne']
          exact .some ⟨.cons (clashEvent_renamed ha hb) .nil, .none⟩

/-- Renamed runs end in the same way, or not at all. -/
theorem unify_rel (h : env.Renamed ρ env') (ha : a.Renamed ρ a') (hb : b.Renamed ρ b') :
    Option.Rel (Run.Renamed ρ) (unify env a b) (unify env' a' b') := by
  -- the depths that suffice for the two need not be the same
  have hsome : ∀ {depth : ℕ} {r r' : Run}, unifyWithin depth env a b = some r →
      unifyWithin depth env' a' b' = some r' → r.Renamed ρ r' →
      Option.Rel (Run.Renamed ρ) (unify env a b) (unify env' a' b') := by
    intro depth r r' hr hr' hrun
    rw [unify_eq_some_iff.2 ⟨depth, hr⟩, unify_eq_some_iff.2 ⟨depth, hr'⟩]
    exact .some hrun
  obtain ⟨hr, hr'⟩ | ⟨r, r', hr, hr', hrun⟩ :=
    rel_cases (unifyWithin_rel (depthBound env a b) h ha hb)
  · cases hu' : unify env' a' b' with
    | none =>
        rw [unify, hr]
        exact .none
    | some r' =>
        obtain ⟨depth, hd'⟩ := unify_eq_some_iff.1 hu'
        obtain ⟨-, hnone⟩ | ⟨r, s, hd, hs, hrun⟩ := rel_cases (unifyWithin_rel depth h ha hb)
        · rw [hnone] at hd'
          cases hd'
        · exact hu' ▸ hsome hd hs hrun
  · exact hsome hr hr' hrun

/-! ### Renamed states -/

theorem exists_split_of_renamed {ps qs : List (Term × Term)} {p : Term × Term}
    (h : List.Forall₂ (PairRenamed ρ) (ps ++ p :: qs) pairs') :
    ∃ ps' p' qs', pairs' = ps' ++ p' :: qs' ∧ List.Forall₂ (PairRenamed ρ) ps ps' ∧
      PairRenamed ρ p p' := by
  induction ps generalizing pairs' with
  | nil =>
      cases h with
      | cons hp hqs => exact ⟨[], _, _, rfl, .nil, hp⟩
  | cons q ps ih =>
      cases h with
      | cons hq h =>
          obtain ⟨ps', p', qs', rfl, hps, hp⟩ := ih h
          exact ⟨_ :: ps', p', qs', rfl, .cons hq hps, hp⟩

/-- Where a run of pairs comes to two terms, the run of renamed pairs comes to renamed terms. -/
theorem ComesTo.exists_renamed {step : Bindings → Term → Term → Option Run} {events : List Event}
    {env₁ : Bindings} (hcomes : ComesTo step env pairs events env₁ a b)
    (hstep : ∀ {env env' : Bindings} {a a' b b' : Term}, env.Renamed ρ env' → a.Renamed ρ a' →
      b.Renamed ρ b' → Option.Rel (Run.Renamed ρ) (step env a b) (step env' a' b'))
    (h : env.Renamed ρ env') (hpairs : List.Forall₂ (PairRenamed ρ) pairs pairs') :
    ∃ events' env₁' a' b', ComesTo step env' pairs' events' env₁' a' b' ∧
      State.Renamed ρ ⟨env₁, a, b⟩ ⟨env₁', a', b'⟩ := by
  obtain ⟨ps, qs, rfl, hps⟩ := hcomes
  obtain ⟨ps', p', qs', rfl, hps', hp⟩ := exists_split_of_renamed hpairs
  obtain ⟨hnone, -⟩ | ⟨r, ⟨events', outcome'⟩, hr, hr', hrenamed⟩ :=
    rel_cases (unifyPairs_rel hstep h hps')
  · rw [hnone] at hps
    cases hps
  · rw [hr] at hps
    cases hps
    obtain ⟨hnone, -⟩ | ⟨env₂, env₁', henv, rfl, h₁⟩ := rel_cases hrenamed.outcome
    · cases hnone
    · cases henv
      exact ⟨events', env₁', p'.1, p'.2, ⟨ps', qs', rfl, hr'⟩, h₁, hp.1, hp.2⟩

/-- What a state calls, the renamed state calls. -/
theorem Calls.exists_renamed {s s₁ s' : State} (hcall : Calls s s₁) (h : s.Renamed ρ s') :
    ∃ s₁', Calls s' s₁' ∧ s₁.Renamed ρ s₁' := by
  obtain ⟨env', a', b'⟩ := s'
  obtain ⟨henv, ha, hb⟩ := h
  cases hcall with
  | @resolved env v c b hd hc =>
      cases ha with
      | var hid =>
          have hc' := hd ▸ henv.deref (.var hid)
          exact ⟨_, .resolved b' rfl (hc'.isVariable_eq.trans hc), henv, hc', hb⟩
  | @swapped env a w hvar =>
      cases hb with
      | var hid => exact ⟨_, .swapped _ (ha.isVariable_eq.trans hvar), henv, .var hid, ha⟩
  | @argument env env₁ depth f as bs a b ps qs events hlen hzip hps =>
      cases ha with
      | @compound _ _ as' has =>
          cases hb with
          | @compound _ _ bs' hbs =>
              have hcomes : ComesTo (unifyWithin depth) env (as.zip bs) events env₁ a b :=
                ⟨ps, qs, hzip, hps⟩
              obtain ⟨events', env₁', c, d, ⟨ps', qs', hzip', hps'⟩, hcall⟩ :=
                hcomes.exists_renamed (unifyWithin_rel depth) henv (zip_renamed has hbs)
              exact ⟨_, .argument (length_eq_of_renamed has hbs hlen) hzip' hps', hcall⟩

theorem exists_calls_renamed {s s₁ s' : State} (hcalls : ReflTransGen Calls s s₁)
    (h : s.Renamed ρ s') : ∃ s₁', ReflTransGen Calls s' s₁' ∧ s₁.Renamed ρ s₁' := by
  induction hcalls with
  | refl => exact ⟨s', .refl, h⟩
  | tail _ hcall ih =>
      obtain ⟨s₂', hs₂, h₂⟩ := ih
      obtain ⟨s₁', hs₁, h₁⟩ := hcall.exists_renamed h₂
      exact ⟨s₁', hs₂.tail hs₁, h₁⟩

/-- What pairs meet, renamed pairs meet. -/
theorem exists_pairsMeet_renamed {s : State} (h : env.Renamed ρ env')
    (hpairs : List.Forall₂ (PairRenamed ρ) pairs pairs') (hs : PairsMeet env pairs s) :
    ∃ s', PairsMeet env' pairs' s' ∧ s.Renamed ρ s' := by
  obtain ⟨events, env₁, a, b, hcomes, hcalls⟩ := hs
  obtain ⟨events', env₁', a', b', hcomes', hstart⟩ := hcomes.exists_renamed unify_rel h hpairs
  obtain ⟨s', hcalls', hs'⟩ := exists_calls_renamed hcalls hstart
  exact ⟨s', ⟨events', env₁', a', b', hcomes', hcalls'⟩, hs'⟩

/-! ### Runs that return -/

/-- The state follows a variable for ever: the one on its left or, if that leads to a variable, one
on its right. -/
inductive State.Stalls : State → Prop
  | left {env : Bindings} {v : Variable} {b : Term} : ¬ env.Ends (.var v) →
      State.Stalls ⟨env, .var v, b⟩
  | right {env : Bindings} {v w : Variable} {b : Term} : env.deref (.var v) = .var w →
      ¬ env.Ends b → State.Stalls ⟨env, .var v, b⟩

/-- Renamed states stall together. -/
theorem State.Renamed.stalls {s s' : State} (h : s.Renamed ρ s') (hs : s.Stalls) : s'.Stalls := by
  obtain ⟨env', a', b'⟩ := s'
  obtain ⟨henv, ha, hb⟩ := h
  cases hs with
  | left hne =>
      cases ha with
      | var hid => exact .left (mt (henv.ends_iff (.var hid)).1 hne)
  | right hd hne =>
      cases ha with
      | var hid =>
          obtain ⟨w', hd', -⟩ := exists_var_of_renamed (hd ▸ henv.deref (.var hid))
          exact .right hd' (mt (henv.ends_iff hb).1 hne)

theorem exists_stalls_of_renamed (h : env.Renamed ρ env') (ha : a.Renamed ρ a')
    (hb : b.Renamed ρ b') (hs : ∃ s, ReflTransGen Calls ⟨env, a, b⟩ s ∧ s.Stalls) :
    ∃ s', ReflTransGen Calls ⟨env', a', b'⟩ s' ∧ s'.Stalls := by
  obtain ⟨s, hcalls, hs⟩ := hs
  have hstart : State.Renamed ρ ⟨env, a, b⟩ ⟨env', a', b'⟩ := ⟨h, ha, hb⟩
  obtain ⟨s', hcalls', hs'⟩ := exists_calls_renamed hcalls hstart
  exact ⟨s', hcalls', hs'.stalls hs⟩

/-- Renamed runs stall together. -/
theorem exists_stalls_iff (h : env.Renamed ρ env') (ha : a.Renamed ρ a') (hb : b.Renamed ρ b') :
    (∃ s, ReflTransGen Calls ⟨env, a, b⟩ s ∧ s.Stalls) ↔
      ∃ s', ReflTransGen Calls ⟨env', a', b'⟩ s' ∧ s'.Stalls :=
  ⟨exists_stalls_of_renamed h ha hb, exists_stalls_of_renamed h.symm ha.symm hb.symm⟩

theorem exists_pairsMeet_stalls_of_renamed (h : env.Renamed ρ env')
    (hpairs : List.Forall₂ (PairRenamed ρ) pairs pairs')
    (hs : ∃ s, PairsMeet env pairs s ∧ s.Stalls) : ∃ s', PairsMeet env' pairs' s' ∧ s'.Stalls := by
  obtain ⟨s, hmeets, hs⟩ := hs
  obtain ⟨s', hmeets', hs'⟩ := exists_pairsMeet_renamed h hpairs hmeets
  exact ⟨s', hmeets', hs'.stalls hs⟩

theorem exists_pairsMeet_stalls_iff (h : env.Renamed ρ env')
    (hpairs : List.Forall₂ (PairRenamed ρ) pairs pairs') :
    (∃ s, PairsMeet env pairs s ∧ s.Stalls) ↔ ∃ s', PairsMeet env' pairs' s' ∧ s'.Stalls := by
  have hback : List.Forall₂ (PairRenamed ρ.symm) pairs' pairs :=
    (hpairs.imp fun _ _ hp => ⟨hp.1.symm, hp.2.symm⟩).flip
  exact ⟨exists_pairsMeet_stalls_of_renamed h hpairs,
    exists_pairsMeet_stalls_of_renamed h.symm hback⟩

/-- Unification returns with the run: it comes to an outcome, and no state that it meets stalls. -/
def Returns (env : Bindings) (a b : Term) (r : Run) : Prop :=
  unify env a b = some r ∧ ¬ ∃ s, ReflTransGen Calls ⟨env, a, b⟩ s ∧ s.Stalls

/-- Without a cycle of variables no state stalls. -/
theorem not_stalls {s : State} (hc : s.env.NoAliasCycle) : ¬ s.Stalls := by
  intro hs
  cases hs with
  | left hne => exact hne (Bindings.ends_of_noAliasCycle hc _)
  | right _ hne => exact hne (Bindings.ends_of_noAliasCycle hc _)

/-- **Without a cycle of variables no run stalls.** -/
theorem returns_iff (hc : env.NoAliasCycle) : Returns env a b r ↔ unify env a b = some r := by
  refine and_iff_left ?_
  rintro ⟨s, hcalls, hs⟩
  obtain ⟨hext, -⟩ := extends_of_calls hcalls (Bindings.closed_true env) trivial trivial
  exact not_stalls (hext.noAliasCycle hc) hs

end Unification

/-! ### Renamed replies -/

namespace Reply

open Unification

/-- The same reply with renamed terms. -/
inductive Renamed (ρ : UInt64 → UInt64) : Reply → Reply → Prop
  | success : Renamed ρ .success .success
  | failure : Renamed ρ .failure .failure
  | unify {pairs pairs' : List (Term × Term)} : List.Forall₂ (PairRenamed ρ) pairs pairs' →
      Renamed ρ (.unify pairs) (.unify pairs')
  | exception (message : String) : Renamed ρ (.exception message) (.exception message)

/-- Both a failure, both a success with renamed bindings, or both the same error. -/
inductive Resolution.OutcomeRenamed (ρ : UInt64 → UInt64) :
    Except RunError (Option Bindings) → Except RunError (Option Bindings) → Prop
  | ok {outcome outcome' : Option Bindings} : Option.Rel (Bindings.Renamed ρ) outcome outcome' →
      OutcomeRenamed ρ (.ok outcome) (.ok outcome')
  | error (e : RunError) : OutcomeRenamed ρ (.error e) (.error e)

/-- Renamed events in the same order, and renamed outcomes. -/
structure Resolution.Renamed (ρ : UInt64 → UInt64) (s s' : Resolution) : Prop where
  events : List.Forall₂ (Event.Renamed ρ) s.events s'.events
  outcome : OutcomeRenamed ρ s.outcome s'.outcome

/-- The resolution of the reply returns: no state that its unifications meet stalls. -/
def Returns (env : Bindings) (q : Reply) (s : Resolution) : Prop :=
  q.resolve env = some s ∧ ¬ ∃ pairs, q = .unify pairs ∧ ∃ st, PairsMeet env pairs st ∧ st.Stalls

variable {ρ : Equiv.Perm UInt64} {env env' : Bindings} {q q' : Reply}

/-- Renamed replies come to renamed outcomes, or to none. -/
theorem resolve_rel (h : env.Renamed ρ env') (hq : q.Renamed ρ q') :
    Option.Rel (Resolution.Renamed ρ) (q.resolve env) (q'.resolve env') := by
  cases hq with
  | success => exact .some ⟨.nil, .ok (.some h)⟩
  | failure => exact .some ⟨.nil, .ok .none⟩
  | exception message => exact .some ⟨.nil, .error _⟩
  | unify hpairs =>
      rw [resolve_unify, resolve_unify]
      obtain ⟨hr, hr'⟩ | ⟨r, r', hr, hr', hrun⟩ := rel_cases (unifyPairs_rel unify_rel h hpairs)
      · rw [hr, hr']
        exact .none
      · rw [hr, hr']
        exact .some ⟨hrun.events, .ok hrun.outcome⟩

theorem matches_returns (h : env.Renamed ρ env') (hq : q.Renamed ρ q') :
    Matches (Resolution.Renamed ρ) (Returns env q) (Returns env' q') := by
  refine matches_of_rel (resolve_rel h hq) (not_congr ?_)
  cases hq with
  | unify hpairs =>
      constructor
      · rintro ⟨_, ⟨⟩, hs⟩
        exact ⟨_, rfl, (exists_pairsMeet_stalls_iff h hpairs).1 hs⟩
      · rintro ⟨_, ⟨⟩, hs⟩
        exact ⟨_, rfl, (exists_pairsMeet_stalls_iff h hpairs).2 hs⟩
  | _ =>
      constructor
      · rintro ⟨_, ⟨⟩, -⟩
      · rintro ⟨_, ⟨⟩, -⟩

end Reply

namespace Unification

open Bindings (Expands)

/-- **Nothing depends on ids or names.**  Let an injective map of ids take bindings to others, with
any names of variables.  Of renamed terms, unification returns where that of the terms returns,
fails where that fails, and otherwise makes renamed bindings; the expansions are renamed, and the
recursion of expansion has a result for the one where it has one for the other; and renamed replies
come to renamed outcomes, with the same errors. -/
theorem unify_of_renamed {ρ : UInt64 → UInt64} (hρ : Function.Injective ρ) {env env' : Bindings}
    (h : env.Renamed ρ env') :
    (∀ a a' b b', Term.Renamed ρ a a' → Term.Renamed ρ b b' →
      Option.Rel (Run.Renamed ρ) (unify env a b) (unify env' a' b') ∧
        Matches (Run.Renamed ρ) (Returns env a b) (Returns env' a' b')) ∧
    (∀ t t', Term.Renamed ρ t t' → (env.expand t).Renamed ρ (env'.expand t') ∧
      Matches (Term.Renamed ρ) (Expands env [] t) (Expands env' [] t')) ∧
    ∀ q q', Reply.Renamed ρ q q' →
      Option.Rel (Reply.Resolution.Renamed ρ) (q.resolve env) (q'.resolve env') ∧
        Matches (Reply.Resolution.Renamed ρ) (q.Returns env) (q'.Returns env') := by
  -- there are only so many ids, so that the map has an inverse
  obtain ⟨ρ, rfl⟩ : ∃ e : Equiv.Perm UInt64, ⇑e = ρ :=
    ⟨Equiv.ofBijective ρ (Finite.injective_iff_bijective.1 hρ), rfl⟩
  refine ⟨fun a a' b b' ha hb => ⟨unify_rel h ha hb, ?_⟩, fun t t' ht => ?_, fun q q' hq => ?_⟩
  · exact matches_of_rel (unify_rel h ha hb) (not_congr (exists_stalls_iff h ha hb))
  · exact ⟨h.expand ht, h.matches_expands ht⟩
  · exact ⟨Reply.resolve_rel h hq, Reply.matches_returns h hq⟩

/-- Ids in the opposite order, and other names: a variable that is bound through another. -/
theorem unify_of_renamed_reversed :
    ∃ r r', unify (.assign .empty ⟨"X", 1⟩ (.var ⟨"Y", 2⟩)) (.compound "f" [.var ⟨"X", 1⟩])
        (.compound "f" [.compound "g" [.var ⟨"Z", 3⟩]]) = some r ∧
      Returns (.assign .empty ⟨"Y", 9⟩ (.var ⟨"X", 8⟩)) (.compound "f" [.var ⟨"A", 9⟩])
        (.compound "f" [.compound "g" [.var ⟨"A", 7⟩]]) r' ∧
      r.Renamed (fun i => 10 - i) r' ∧
      r.outcome = some (.assign (.assign .empty ⟨"X", 1⟩ (.var ⟨"Y", 2⟩)) ⟨"Y", 2⟩
        (.compound "g" [.var ⟨"Z", 3⟩])) := by
  have hinvolutive : Function.Involutive fun i : UInt64 => 10 - i := by
    intro i
    grind
  have henv : Bindings.Renamed (fun i => 10 - i) (.assign .empty ⟨"X", 1⟩ (.var ⟨"Y", 2⟩))
      (.assign .empty ⟨"Y", 9⟩ (.var ⟨"X", 8⟩)) := by
    have hempty : Bindings.Renamed hinvolutive.toPerm .empty .empty := Bindings.renamed_empty _
    exact hempty.assign rfl (.var rfl)
  have hleft : Term.Renamed (fun i => 10 - i) (.compound "f" [.var ⟨"X", 1⟩])
      (.compound "f" [.var ⟨"A", 9⟩]) := .compound "f" (.cons (.var (by decide)) .nil)
  have hright : Term.Renamed (fun i => 10 - i) (.compound "f" [.compound "g" [.var ⟨"Z", 3⟩]])
      (.compound "f" [.compound "g" [.var ⟨"A", 7⟩]]) :=
    .compound "f" (.cons (.compound "g" (.cons (.var (by decide)) .nil)) .nil)
  have hrun : unify (.assign .empty ⟨"X", 1⟩ (.var ⟨"Y", 2⟩)) (.compound "f" [.var ⟨"X", 1⟩])
      (.compound "f" [.compound "g" [.var ⟨"Z", 3⟩]]) =
      some ⟨[.bound ⟨"Y", 2⟩ (.compound "g" [.var ⟨"Z", 3⟩])],
        some (.assign (.assign .empty ⟨"X", 1⟩ (.var ⟨"Y", 2⟩)) ⟨"Y", 2⟩
          (.compound "g" [.var ⟨"Z", 3⟩]))⟩ := rfl
  have hcycle : Bindings.NoAliasCycle (.assign .empty ⟨"X", 1⟩ (.var ⟨"Y", 2⟩)) := by
    refine Bindings.noAliasCycle_empty.assign rfl ?_
    rintro w ⟨⟩
    decide
  obtain ⟨hterms, -, -⟩ := unify_of_renamed hinvolutive.injective henv
  obtain ⟨-, hreturns, -⟩ := hterms _ _ _ _ hleft hright
  obtain ⟨r', hr', hrenamed⟩ := hreturns _ ((returns_iff hcycle).2 hrun)
  exact ⟨_, r', hrun, hr', hrenamed, rfl⟩

end Unification

end LogicTerms
