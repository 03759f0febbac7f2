/-
**What a run of unification can do.**

A run within some depth is a tree of steps: a variable on the left is replaced by what it stands
for or, if that is a variable again, bound; a variable on the right changes sides; constants are
compared; compounds hand over to their arguments.  The seven kinds of step are said once, as
`Unification.Situation`, with one equation for each; `Unification.run_induction` makes an induction
principle of them, so that what runs preserve is proved kind by kind without a look at the depth.

Main definitions:

* `Term.SameHead` — two terms that a step does not tell apart;
* `Unification.Situation` — the kind of step that two terms call for;
* `Unification.Event.isMismatch` — the record of a failure;
* `Unification.clashEvent` — the record of two terms that clash;
* `Unification.SuccessInvariant` — what every kind of step keeps of a success.

Main results:

* `Unification.situation` — two terms call for one of the seven kinds of step;
* `Unification.unifyUnbound_outcome` — what binding a variable can lead to;
* `Unification.run_induction` — **induction on a run**;
* `Unification.SuccessInvariant.run`, `Unification.SuccessInvariant.pairs` — **induction on a
  success**, of two terms and of pairs.
-/

import LogicTerms.Proofs.Bindings.Aliases
import LogicTerms.Unification

set_option relaxedAutoImplicit false
set_option autoImplicit false

namespace LogicTerms

/-- The terms agree as far as a step looks at them: they are equal constants, or compounds of one
functor and number of arguments. -/
def Term.SameHead : Term → Term → Prop
  | .atom a, .atom b => a = b
  | .num m, .num n => m.equal n = true
  | .compound f as, .compound g bs => f = g ∧ as.length = bs.length
  | _, _ => False

namespace Unification

/-- A record of two terms that cannot be unified. -/
def Event.isMismatch : Event → Bool
  | .bound _ _ => false
  | .mismatch _ _ => true
  | .functorMismatch _ _ _ _ => true

/-- The record of two terms that clash: compounds are recorded by their functors alone. -/
def clashEvent : Term → Term → Event
  | .compound f as, .compound g bs => .functorMismatch f as.length g bs.length
  | a, b => .mismatch a b

theorem isMismatch_clashEvent (a b : Term) : (clashEvent a b).isMismatch = true := by
  unfold clashEvent
  split <;> rfl

/-! ### Kinds of step -/

/-- The kind of step that two terms call for. -/
inductive Situation (env : Bindings) : Term → Term → Prop
  | unbound {v w : Variable} {b : Term} : env.deref (.var v) = .var w → Situation env (.var v) b
  | resolved {v : Variable} {a b : Term} : env.deref (.var v) = a → a.isVariable = false →
      Situation env (.var v) b
  | swapped {a : Term} {w : Variable} : a.isVariable = false → Situation env a (.var w)
  | atoms (a : String) : Situation env (.atom a) (.atom a)
  | nums {m n : Number} : m.equal n = true → Situation env (.num m) (.num n)
  | compounds {f : String} {as bs : List Term} : as.length = bs.length →
      Situation env (.compound f as) (.compound f bs)
  | clash {a b : Term} : a.isVariable = false → b.isVariable = false → ¬ a.SameHead b →
      Situation env a b

/-- **Two terms call for one of the seven kinds of step.** -/
theorem situation (env : Bindings) (a b : Term) : Situation env a b := by
  cases a with
  | var v =>
      cases hd : env.deref (.var v) with
      | var w => exact .unbound hd
      | _ => exact .resolved hd rfl
  | atom c =>
      cases b with
      | var w => exact .swapped rfl
      | atom d =>
          by_cases hcd : c = d
          · exact hcd ▸ .atoms c
          · exact .clash rfl rfl hcd
      | _ => exact .clash rfl rfl id
  | num m =>
      cases b with
      | var w => exact .swapped rfl
      | num n =>
          by_cases hmn : m.equal n = true
          · exact .nums hmn
          · exact .clash rfl rfl hmn
      | _ => exact .clash rfl rfl id
  | compound f as =>
      cases b with
      | var w => exact .swapped rfl
      | compound g bs =>
          by_cases hfg : f = g ∧ as.length = bs.length
          · obtain ⟨rfl, hlen⟩ := hfg
            exact .compounds hlen
          · exact .clash rfl rfl hfg
      | _ => exact .clash rfl rfl id

section Equations

variable {env : Bindings} (depth : ℕ)

theorem unifyWithin_unbound {v w : Variable} (h : env.deref (.var v) = .var w) (b : Term) :
    unifyWithin (depth + 1) env (.var v) b = some (unifyUnbound env w (env.deref b)) := by
  rw [unifyWithin, h]

theorem unifyWithin_resolved {v : Variable} {a : Term} (h : env.deref (.var v) = a)
    (ha : a.isVariable = false) (b : Term) :
    unifyWithin (depth + 1) env (.var v) b = unifyWithin depth env a b := by
  rw [unifyWithin, h]
  cases a with
  | var w => exact nomatch ha
  | _ => rfl

theorem unifyWithin_swapped {a : Term} (ha : a.isVariable = false) (w : Variable) :
    unifyWithin (depth + 1) env a (.var w) = unifyWithin depth env (.var w) a := by
  cases a with
  | var v => exact nomatch ha
  | _ => rfl

theorem unifyWithin_atoms (a : String) :
    unifyWithin (depth + 1) env (.atom a) (.atom a) = some (.ok env) := by
  rw [unifyWithin, if_pos rfl]

theorem unifyWithin_nums {m n : Number} (h : m.equal n = true) :
    unifyWithin (depth + 1) env (.num m) (.num n) = some (.ok env) := by
  rw [unifyWithin, if_pos h]

theorem unifyWithin_compounds (f : String) {as bs : List Term} (h : as.length = bs.length) :
    unifyWithin (depth + 1) env (.compound f as) (.compound f bs) =
      unifyPairs (unifyWithin depth) env (as.zip bs) := by
  rw [unifyWithin, if_pos ⟨rfl, h⟩]

/-- The run of a clash records it. -/
theorem unifyWithin_clashEvent (env : Bindings) {a b : Term} (ha : a.isVariable = false)
    (hb : b.isVariable = false) (h : ¬ a.SameHead b) :
    unifyWithin (depth + 1) env a b = some (.fail (clashEvent a b)) := by
  cases a with
  | var v => exact nomatch ha
  | atom c =>
      cases b with
      | var w => exact nomatch hb
      | atom d =>
          have hcd : ¬ c = d := h
          rw [unifyWithin, if_neg hcd]
          rfl
      | _ => rfl
  | num m =>
      cases b with
      | var w => exact nomatch hb
      | num n =>
          have hmn : ¬ m.equal n = true := h
          rw [unifyWithin, if_neg hmn]
          rfl
      | _ => rfl
  | compound f as =>
      cases b with
      | var w => exact nomatch hb
      | compound g bs =>
          have hfg : ¬ (f = g ∧ as.length = bs.length) := h
          rw [unifyWithin, if_neg hfg]
          rfl
      | _ => rfl

/-- The record of a clash does not depend on the bindings. -/
theorem exists_clash {a b : Term} (ha : a.isVariable = false) (hb : b.isVariable = false)
    (h : ¬ a.SameHead b) :
    ∃ e : Event, e.isMismatch = true ∧
      ∀ depth env, unifyWithin (depth + 1) env a b = some (.fail e) :=
  ⟨clashEvent a b, isMismatch_clashEvent a b,
    fun depth env => unifyWithin_clashEvent depth env ha hb h⟩

theorem unifyWithin_clash (env : Bindings) {a b : Term} (ha : a.isVariable = false)
    (hb : b.isVariable = false) (h : ¬ a.SameHead b) :
    ∃ e, e.isMismatch = true ∧ unifyWithin (depth + 1) env a b = some (.fail e) := by
  obtain ⟨e, he, hrun⟩ := exists_clash ha hb h
  exact ⟨e, he, hrun depth env⟩

end Equations

/-! ### Binding a variable -/

theorem bindVariable_outcome {env env' : Bindings} {v : Variable} {t : Term}
    (h : (bindVariable env v t).outcome = some env') :
    env.find? v = none ∧ env' = env.assign v t := by
  rw [bindVariable] at h
  cases hb : env.bind v t with
  | error e =>
      rw [hb] at h
      exact nomatch h
  | ok new =>
      rw [hb] at h
      cases h
      exact Bindings.bind_eq_ok_iff.1 hb

/-- An unbound variable can be unified with every term. -/
theorem exists_unifyUnbound_outcome {env : Bindings} {v : Variable} (h : env.find? v = none)
    (t : Term) : ∃ env', (unifyUnbound env v t).outcome = some env' := by
  have hbind : (bindVariable env v t).outcome = some (env.assign v t) := by
    rw [bindVariable, Bindings.bind_eq_ok_iff.2 ⟨h, rfl⟩]
  cases t with
  | var w =>
      rw [unifyUnbound]
      split
      · exact ⟨env, rfl⟩
      · exact ⟨_, hbind⟩
  | _ => exact ⟨_, hbind⟩

/-- Unifying an unbound variable with a term does nothing if the term is that variable, and binds
the variable otherwise. -/
theorem unifyUnbound_outcome {env env' : Bindings} {v : Variable} {t : Term}
    (h : (unifyUnbound env v t).outcome = some env') :
    (env' = env ∧ ∃ w, t = .var w ∧ w.id = v.id) ∨
      (env.find? v = none ∧ (∀ w, t = .var w → w.id ≠ v.id) ∧ env' = env.assign v t) := by
  cases t with
  | var w =>
      rw [unifyUnbound] at h
      split at h
      · rename_i hid
        exact .inl ⟨(Option.some.inj h).symm, w, rfl, hid⟩
      · rename_i hid
        obtain ⟨hv, he⟩ := bindVariable_outcome h
        refine .inr ⟨hv, ?_, he⟩
        rintro x ⟨⟩
        exact hid
  | _ =>
      obtain ⟨hv, he⟩ := bindVariable_outcome h
      refine .inr ⟨hv, ?_, he⟩
      rintro w ⟨⟩

/-! ### Induction on a run -/

section Induction

variable (motive : Bindings → Term → Term → Run → Prop)
  (motivePairs : Bindings → List (Term × Term) → Run → Prop)

/-- What holds of the run of every pair extends to runs of pairs, if it holds of the empty run and
is kept by the two ways in which the run of a pair goes on. -/
theorem unifyPairs_induction {step : Bindings → Term → Term → Option Run}
    (nil : ∀ env, motivePairs env [] (.ok env))
    (stop : ∀ env a b pairs events, motive env a b ⟨events, none⟩ →
      motivePairs env ((a, b) :: pairs) ⟨events, none⟩)
    (next : ∀ env a b pairs events env' r, motive env a b ⟨events, some env'⟩ →
      motivePairs env' pairs r → motivePairs env ((a, b) :: pairs) (r.after events))
    (hstep : ∀ env a b r, step env a b = some r → motive env a b r)
    {env : Bindings} {pairs : List (Term × Term)} {r : Run}
    (h : unifyPairs step env pairs = some r) : motivePairs env pairs r := by
  induction pairs generalizing env r with
  | nil =>
      cases h
      exact nil env
  | cons p pairs ih =>
      obtain ⟨a, b⟩ := p
      rw [unifyPairs] at h
      cases hs : step env a b with
      | none => rw [hs] at h; cases h
      | some s =>
          rw [hs] at h
          obtain ⟨events, _ | env'⟩ := s
          · -- the run of the pair fails, and the others are not looked at
            cases h
            exact stop env a b pairs events (hstep env a b _ hs)
          · obtain ⟨r', hr', rfl⟩ := Option.map_eq_some_iff.1 h
            exact next env a b pairs events env' r' (hstep env a b _ hs) (ih hr')

/-- **Induction on a run**: what every kind of step keeps holds of every run, of two terms within
any depth. -/
theorem run_induction
    (unbound : ∀ env v b w, env.deref (.var v) = .var w →
      motive env (.var v) b (unifyUnbound env w (env.deref b)))
    (resolved : ∀ env v b a r, env.deref (.var v) = a → a.isVariable = false →
      motive env a b r → motive env (.var v) b r)
    (swapped : ∀ env a w r, a.isVariable = false → motive env (.var w) a r →
      motive env a (.var w) r)
    (atoms : ∀ env a, motive env (.atom a) (.atom a) (.ok env))
    (nums : ∀ env m n, m.equal n = true → motive env (.num m) (.num n) (.ok env))
    (compounds : ∀ env f as bs r, as.length = bs.length → motivePairs env (as.zip bs) r →
      motive env (.compound f as) (.compound f bs) r)
    (clash : ∀ env a b e, a.isVariable = false → b.isVariable = false → ¬ a.SameHead b →
      e.isMismatch = true → motive env a b (.fail e))
    (nil : ∀ env, motivePairs env [] (.ok env))
    (stop : ∀ env a b pairs events, motive env a b ⟨events, none⟩ →
      motivePairs env ((a, b) :: pairs) ⟨events, none⟩)
    (next : ∀ env a b pairs events env' r, motive env a b ⟨events, some env'⟩ →
      motivePairs env' pairs r → motivePairs env ((a, b) :: pairs) (r.after events))
    {depth : ℕ} {env : Bindings} {a b : Term} {r : Run}
    (h : unifyWithin depth env a b = some r) : motive env a b r := by
  -- on the depth, which every kind of step but the last uses up by one
  induction depth generalizing env a b r with
  | zero => exact nomatch h
  | succ depth ih =>
      cases situation env a b with
      | @unbound v w b hd =>
          rw [unifyWithin_unbound depth hd] at h
          exact Option.some.inj h ▸ unbound env v b w hd
      | @resolved v c b hd hc =>
          rw [unifyWithin_resolved depth hd hc] at h
          exact resolved env v b c r hd hc (ih h)
      | @swapped a w ha =>
          rw [unifyWithin_swapped depth ha] at h
          exact swapped env a w r ha (ih h)
      | atoms a =>
          rw [unifyWithin_atoms] at h
          exact Option.some.inj h ▸ atoms env a
      | @nums m n hmn =>
          rw [unifyWithin_nums depth hmn] at h
          exact Option.some.inj h ▸ nums env m n hmn
      | @compounds f as bs hlen =>
          rw [unifyWithin_compounds depth f hlen] at h
          exact compounds env f as bs r hlen
            (unifyPairs_induction motive motivePairs nil stop next (fun _ _ _ _ => ih) h)
      | clash ha hb hab =>
          obtain ⟨e, he, hs⟩ := unifyWithin_clash depth env ha hb hab
          rw [hs] at h
          exact Option.some.inj h ▸ clash env a b e ha hb hab he

end Induction

/-! ### Induction on a success -/

/-- What every kind of step keeps of a success, which leads from bindings and two terms, or pairs of
terms, to bindings. -/
structure SuccessInvariant (Q : Bindings → Term → Term → Bindings → Prop)
    (Qs : Bindings → List (Term × Term) → Bindings → Prop) : Prop where
  /-- The two terms stand for one unbound variable. -/
  same : ∀ env v b w x, env.deref (.var v) = .var w → env.deref b = .var x → x.id = w.id →
    Q env (.var v) b env
  /-- The variable on the left stands for an unbound variable, which is bound. -/
  bind : ∀ env v b w, env.deref (.var v) = .var w → env.find? w = none →
    (∀ x, env.deref b = .var x → x.id ≠ w.id) → Q env (.var v) b (env.assign w (env.deref b))
  /-- The variable on the left stands for a term that is no variable. -/
  resolved : ∀ env v b a env', env.deref (.var v) = a → a.isVariable = false → Q env a b env' →
    Q env (.var v) b env'
  /-- Only the term on the right is a variable. -/
  swapped : ∀ env a w env', a.isVariable = false → Q env (.var w) a env' → Q env a (.var w) env'
  /-- Equal atoms. -/
  atoms : ∀ env a, Q env (.atom a) (.atom a) env
  /-- Equal numbers. -/
  nums : ∀ env m n, m.equal n = true → Q env (.num m) (.num n) env
  /-- Compounds that agree in functor and number of arguments. -/
  compounds : ∀ env f as bs env', as.length = bs.length → Qs env (as.zip bs) env' →
    Q env (.compound f as) (.compound f bs) env'
  /-- No pairs. -/
  nil : ∀ env, Qs env [] env
  /-- A pair and more pairs. -/
  next : ∀ env a b pairs env₁ env', Q env a b env₁ → Qs env₁ pairs env' →
    Qs env ((a, b) :: pairs) env'

namespace SuccessInvariant

variable {Q : Bindings → Term → Term → Bindings → Prop}
  {Qs : Bindings → List (Term × Term) → Bindings → Prop}

/-- **Induction on a success**: what every kind of step keeps holds of every run that succeeds. -/
theorem run (h : SuccessInvariant Q Qs) {depth : ℕ} {env env' : Bindings} {a b : Term} {r : Run}
    (hrun : unifyWithin depth env a b = some r) (hr : r.outcome = some env') : Q env a b env' := by
  revert env'
  refine run_induction (fun env a b r => ∀ {env'}, r.outcome = some env' → Q env a b env')
    (fun env pairs r => ∀ {env'}, r.outcome = some env' → Qs env pairs env')
    ?_ ?_ ?_ ?_ ?_ ?_ ?_ ?_ ?_ ?_ hrun
  · intro env v b w hw env' hr
    obtain ⟨rfl, x, hx, hid⟩ | ⟨hn, hne, rfl⟩ := unifyUnbound_outcome hr
    · exact h.same env' v b w x hw hx hid
    · exact h.bind env v b w hw hn hne
  · intro env v b a r hd ha ih env' hr
    exact h.resolved env v b a env' hd ha (ih hr)
  · intro env a w r ha ih env' hr
    exact h.swapped env a w env' ha (ih hr)
  · intro env a env' hr
    exact Option.some.inj hr ▸ h.atoms env a
  · intro env m n hmn env' hr
    exact Option.some.inj hr ▸ h.nums env m n hmn
  · intro env f as bs r hlen ih env' hr
    exact h.compounds env f as bs env' hlen (ih hr)
  · intro env a b e _ _ _ _ env' hr
    exact nomatch hr
  · intro env env' hr
    exact Option.some.inj hr ▸ h.nil env
  · intro env a b pairs events _ env' hr
    exact nomatch hr
  · intro env a b pairs events env₁ r ih ihs env' hr
    exact h.next env a b pairs env₁ env' (ih rfl) (ihs hr)

/-- What every kind of step keeps holds of runs of pairs, whatever depth each of them takes. -/
theorem pairs (h : SuccessInvariant Q Qs) {step : Bindings → Term → Term → Option Run}
    (hstep : ∀ env a b r, step env a b = some r → ∃ depth, unifyWithin depth env a b = some r)
    {env env' : Bindings} {ps : List (Term × Term)} {r : Run}
    (hrun : unifyPairs step env ps = some r) (hr : r.outcome = some env') : Qs env ps env' := by
  revert env'
  refine unifyPairs_induction
    (fun env a b r => ∀ {env'}, r.outcome = some env' → Q env a b env')
    (fun env pairs r => ∀ {env'}, r.outcome = some env' → Qs env pairs env')
    ?_ ?_ ?_ ?_ hrun
  · intro env env' hr
    exact Option.some.inj hr ▸ h.nil env
  · intro env a b pairs events _ env' hr
    exact nomatch hr
  · intro env a b pairs events env₁ r ih ihs env' hr
    exact h.next env a b pairs env₁ env' (ih rfl) (ihs hr)
  · intro env a b r hs env' hr
    obtain ⟨depth, hd⟩ := hstep env a b r hs
    exact h.run hd hr

end SuccessInvariant

end Unification

end LogicTerms
