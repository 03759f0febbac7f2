/-
**Unification with an occurs check.**

Before it binds a variable to a term, unification can look whether the variable occurs in the term,
expanded, and give up if it does.  Unification as it is goes without that look.  But up to the first
binding with such an occurrence both do the same: if there is none, the check finds what the run
finds, and if there is one, the check finds that.  And as long as there is none, bindings do not get
a cycle.

Main definitions:

* `Unification.Verdict` — what unification with an occurs check finds;
* `Unification.checkedWithin` — unification with an occurs check, within a depth;
* `Unification.MakesCycle` — a run binds a variable to a term in which it occurs;
* `Unification.Verdict.Fits` — a verdict is what a run finds, or else that it makes a cycle.

Main results:

* `Unification.verdict_unique` — there is one verdict, whatever depth it is found within;
* `Unification.checkedWithin_fits` — **both agree up to a binding that makes a cycle**;
* `Unification.occurs_of_makesCycle` — a binding that makes a cycle is found.
-/

import LogicTerms.Proofs.Bindings.Occurrence
import LogicTerms.Proofs.Unification.Record

set_option relaxedAutoImplicit false
set_option autoImplicit false

namespace LogicTerms.Unification

open Relation

variable {env env' : Bindings} {a b t : Term} {w : Variable}

/-! ### An occurs check before each binding -/

/-- What unification with an occurs check finds. -/
inductive Verdict where
  /-- The bindings unify the terms. -/
  | success (env : Bindings)
  /-- The terms are different and cannot be made the same. -/
  | clash
  /-- A variable would have to be bound to a term in which it occurs. -/
  | occurs

/-- What a run without an occurs check finds. -/
def Run.verdict (r : Run) : Verdict :=
  match r.outcome with
  | some env => .success env
  | none => .clash

/-- The variable occurs in the term, expanded. -/
def occursIn (env : Bindings) (w : Variable) (t : Term) : Bool :=
  (env.expand t).occurrences.any (·.id == w.id)

theorem occursIn_iff : occursIn env w t = true ↔ (env.expand t).Mentions w.id := by
  simp only [occursIn, List.any_eq_true, beq_iff_eq, Term.Mentions]

/-- Binds an unbound variable to a term in which it does not occur. -/
def checkedBind (env : Bindings) (w : Variable) (t : Term) : Verdict :=
  if occursIn env w t then .occurs else .success (env.assign w t)

/-- Unifies an unbound variable with a term that has been followed to its end. -/
def checkedUnbound (env : Bindings) (w : Variable) : Term → Verdict
  | .var x => if x.id = w.id then .success env else checkedBind env w (.var x)
  | t => checkedBind env w t

theorem checkedUnbound_of_ne (h : ∀ x, t = .var x → x.id ≠ w.id) :
    checkedUnbound env w t = checkedBind env w t := by
  cases t with
  | var x => rw [checkedUnbound, if_neg (h x rfl)]
  | _ => rfl

/-- Unifies pairs one after the other, with the given way to unify a pair. -/
def checkedPairs (step : Bindings → Term → Term → Option Verdict) :
    Bindings → List (Term × Term) → Option Verdict
  | env, [] => some (.success env)
  | env, (a, b) :: pairs =>
    match step env a b with
    | some (.success env') => checkedPairs step env' pairs
    | verdict => verdict

/-- Unifies two terms with an occurs check, with at most so many steps inside one another. -/
def checkedWithin : ℕ → Bindings → Term → Term → Option Verdict
  | 0, _, _, _ => none
  | depth + 1, env, .var v, b =>
    match env.deref (.var v) with
    | .var w => some (checkedUnbound env w (env.deref b))
    | a => checkedWithin depth env a b
  | depth + 1, env, a, .var w => checkedWithin depth env (.var w) a
  | _ + 1, env, .atom a, .atom b => some (if a = b then .success env else .clash)
  | _ + 1, env, .num m, .num n => some (if m.equal n then .success env else .clash)
  | depth + 1, env, .compound f as, .compound g bs =>
    if f = g ∧ as.length = bs.length then checkedPairs (checkedWithin depth) env (as.zip bs)
    else some .clash
  | _ + 1, _, _, _ => some .clash

/-! ### Kinds of step -/

section Equations

variable (depth : ℕ)

theorem checkedWithin_unbound {v : Variable} (h : env.deref (.var v) = .var w) (b : Term) :
    checkedWithin (depth + 1) env (.var v) b = some (checkedUnbound env w (env.deref b)) := by
  rw [checkedWithin, h]

theorem checkedWithin_resolved {v : Variable} (h : env.deref (.var v) = a)
    (ha : a.isVariable = false) (b : Term) :
    checkedWithin (depth + 1) env (.var v) b = checkedWithin depth env a b := by
  rw [checkedWithin, h]
  cases a with
  | var w => exact nomatch ha
  | _ => rfl

theorem checkedWithin_swapped (ha : a.isVariable = false) (w : Variable) :
    checkedWithin (depth + 1) env a (.var w) = checkedWithin depth env (.var w) a := by
  cases a with
  | var v => exact nomatch ha
  | _ => rfl

theorem checkedWithin_atoms (a : String) :
    checkedWithin (depth + 1) env (.atom a) (.atom a) = some (.success env) := by
  rw [checkedWithin, if_pos rfl]

theorem checkedWithin_nums {m n : Number} (h : m.equal n = true) :
    checkedWithin (depth + 1) env (.num m) (.num n) = some (.success env) := by
  rw [checkedWithin, if_pos h]

theorem checkedWithin_compounds (f : String) {as bs : List Term} (h : as.length = bs.length) :
    checkedWithin (depth + 1) env (.compound f as) (.compound f bs) =
      checkedPairs (checkedWithin depth) env (as.zip bs) := by
  rw [checkedWithin, if_pos ⟨rfl, h⟩]

theorem checkedWithin_clash (env : Bindings) (ha : a.isVariable = false)
    (hb : b.isVariable = false) (h : ¬ a.SameHead b) :
    checkedWithin (depth + 1) env a b = some .clash := by
  cases a with
  | var v => exact nomatch ha
  | atom c =>
      cases b with
      | var w => exact nomatch hb
      | atom d =>
          have hcd : ¬ c = d := h
          rw [checkedWithin, if_neg hcd]
      | _ => rfl
  | num m =>
      cases b with
      | var w => exact nomatch hb
      | num n =>
          have hmn : ¬ m.equal n = true := h
          rw [checkedWithin, if_neg hmn]
      | _ => rfl
  | compound f as =>
      cases b with
      | var w => exact nomatch hb
      | compound g bs =>
          have hfg : ¬ (f = g ∧ as.length = bs.length) := h
          rw [checkedWithin, if_neg hfg]
      | _ => rfl

end Equations

/-! ### More depth -/

theorem checkedPairs_mono {step step' : Bindings → Term → Term → Option Verdict}
    (h : ∀ env a b v, step env a b = some v → step' env a b = some v)
    {pairs : List (Term × Term)} {v : Verdict} (hv : checkedPairs step env pairs = some v) :
    checkedPairs step' env pairs = some v := by
  induction pairs generalizing env with
  | nil => exact hv
  | cons p pairs ih =>
      obtain ⟨a, b⟩ := p
      rw [checkedPairs] at hv ⊢
      cases hs : step env a b with
      | none => rw [hs] at hv; exact nomatch hv
      | some u =>
          rw [hs] at hv
          rw [h env a b u hs]
          cases u with
          | success env' => exact ih hv
          | _ => exact hv

theorem checkedWithin_succ {depth : ℕ} {v : Verdict} (h : checkedWithin depth env a b = some v) :
    checkedWithin (depth + 1) env a b = some v := by
  induction depth generalizing env a b v with
  | zero => exact nomatch h
  | succ depth ih =>
      cases situation env a b with
      | unbound hd => rwa [checkedWithin_unbound _ hd] at h ⊢
      | resolved hd ha =>
          rw [checkedWithin_resolved _ hd ha] at h ⊢
          exact ih h
      | swapped ha =>
          rw [checkedWithin_swapped _ ha] at h ⊢
          exact ih h
      | atoms a => rwa [checkedWithin_atoms] at h ⊢
      | nums hmn => rwa [checkedWithin_nums _ hmn] at h ⊢
      | compounds hlen =>
          rw [checkedWithin_compounds _ _ hlen] at h ⊢
          exact checkedPairs_mono (fun _ _ _ _ => ih) h
      | clash ha hb hab => rwa [checkedWithin_clash _ _ ha hb hab] at h ⊢

/-- More depth does not change a verdict. -/
theorem checkedWithin_mono {depth depth' : ℕ} (hd : depth ≤ depth') {v : Verdict}
    (h : checkedWithin depth env a b = some v) : checkedWithin depth' env a b = some v := by
  induction hd with
  | refl => exact h
  | step _ ih => exact checkedWithin_succ ih

/-- There is one verdict, whatever depth it is found within. -/
theorem verdict_unique {depth depth' : ℕ} {v v' : Verdict}
    (h : checkedWithin depth env a b = some v) (h' : checkedWithin depth' env a b = some v') :
    v = v' := by
  have hmax := checkedWithin_mono (le_max_left depth depth') h
  rw [checkedWithin_mono (le_max_right depth depth') h'] at hmax
  exact (Option.some.inj hmax).symm

/-! ### Agreement up to a cycle -/

/-- The run of the state binds a variable to a term in which it occurs, expanded. -/
def MakesCycle (s : State) : Prop :=
  ∃ s' w t, ReflTransGen Calls s s' ∧ s'.Binds w t ∧ (s'.env.expand t).Mentions w.id

theorem MakesCycle.of_call {s s' : State} (h : MakesCycle s') (hcall : Calls s s') :
    MakesCycle s := by
  obtain ⟨s'', w, t, hcalls, h⟩ := h
  exact ⟨s'', w, t, hcalls.head hcall, h⟩

/-- The verdict is what the run finds, or else that the run makes a cycle. -/
def Verdict.Fits (v : Verdict) (run : Option Run) (cycle : Prop) : Prop :=
  match v with
  | .success env => env.Acyclic ∧ ∃ events, run = some ⟨events, some env⟩
  | .clash => ∃ events, run = some ⟨events, none⟩
  | .occurs => cycle

namespace Verdict.Fits

variable {v : Verdict} {run : Option Run} {cycle cycle' : Prop}

theorem imp (h : v.Fits run cycle) (hcycle : cycle → cycle') : v.Fits run cycle' := by
  cases v with
  | occurs => exact hcycle h
  | _ => exact h

/-- What was recorded before does not matter. -/
theorem after (h : v.Fits run cycle) (events : List Event) :
    v.Fits (run.map (.after events)) cycle := by
  cases v with
  | success env =>
      obtain ⟨hA, events', rfl⟩ := h
      exact ⟨hA, _, rfl⟩
  | clash =>
      obtain ⟨events', rfl⟩ := h
      exact ⟨_, rfl⟩
  | occurs => exact h

/-- A verdict fits the run that finds it, or there is a cycle. -/
theorem exists_run (h : v.Fits run cycle) (hno : ¬ cycle) : ∃ r, run = some r ∧ v = r.verdict := by
  cases v with
  | success env =>
      obtain ⟨-, events, rfl⟩ := h
      exact ⟨_, rfl, rfl⟩
  | clash =>
      obtain ⟨events, rfl⟩ := h
      exact ⟨_, rfl, rfl⟩
  | occurs => exact absurd h hno

end Verdict.Fits

theorem checkedUnbound_fits (hA : env.Acyclic) (hw : env.find? w = none) {cycle : Prop}
    (hcycle : (∀ x, t = .var x → x.id ≠ w.id) → (env.expand t).Mentions w.id → cycle) :
    (checkedUnbound env w t).Fits (some (unifyUnbound env w t)) cycle := by
  have hbind : (∀ x, t = .var x → x.id ≠ w.id) →
      (checkedBind env w t).Fits (some (bindVariable env w t)) cycle := by
    intro hne
    rw [checkedBind, bindVariable, Bindings.bind_eq_ok_iff.2 ⟨hw, rfl⟩]
    split
    · rename_i hocc
      exact hcycle hne (occursIn_iff.1 hocc)
    · rename_i hocc
      exact ⟨hA.assign hw (mt occursIn_iff.2 hocc), _, rfl⟩
  cases t with
  | var x =>
      rw [checkedUnbound, unifyUnbound]
      split
      · exact ⟨hA, _, rfl⟩
      · rename_i hne
        refine hbind ?_
        rintro y ⟨⟩
        exact hne
  | _ =>
      refine hbind ?_
      rintro x ⟨⟩

/-- The verdict on pairs fits their run if the verdicts on two terms do. -/
theorem checkedPairs_fits {depth : ℕ}
    (hstep : ∀ env a b v, checkedWithin depth env a b = some v → env.Acyclic →
      v.Fits (unifyWithin depth env a b) (MakesCycle ⟨env, a, b⟩))
    {pairs : List (Term × Term)} {v : Verdict}
    (h : checkedPairs (checkedWithin depth) env pairs = some v) (hA : env.Acyclic) :
    v.Fits (unifyPairs (unifyWithin depth) env pairs) (∃ ps a b qs events env',
      pairs = ps ++ (a, b) :: qs ∧
      unifyPairs (unifyWithin depth) env ps = some ⟨events, some env'⟩ ∧
      MakesCycle ⟨env', a, b⟩) := by
  induction pairs generalizing env with
  | nil =>
      cases h
      exact ⟨hA, _, rfl⟩
  | cons p pairs ih =>
      obtain ⟨a, b⟩ := p
      rw [checkedPairs] at h
      cases hs : checkedWithin depth env a b with
      | none => rw [hs] at h; exact nomatch h
      | some u =>
          rw [hs] at h
          have hu := hstep env a b u hs hA
          cases u with
          | success env₁ =>
              obtain ⟨hA₁, events, hrun⟩ := hu
              have hrest := (ih h hA₁).after events
              rw [unifyPairs, hrun]
              refine hrest.imp ?_
              rintro ⟨ps, c, d, qs, events', env', rfl, hps, hcycle⟩
              refine ⟨(a, b) :: ps, c, d, qs, events ++ events', env', rfl, ?_, hcycle⟩
              simp only [unifyPairs, hrun, hps, Option.map_some, Run.after]
          | clash =>
              cases h
              obtain ⟨events, hrun⟩ := hu
              exact ⟨events, by rw [unifyPairs, hrun]⟩
          | occurs =>
              cases h
              exact ⟨[], a, b, pairs, [], env, rfl, rfl, hu⟩

/-- **Unification with and without an occurs check agree** up to a binding that makes a cycle. -/
theorem checkedWithin_fits {depth : ℕ} {v : Verdict} (h : checkedWithin depth env a b = some v)
    (hA : env.Acyclic) : v.Fits (unifyWithin depth env a b) (MakesCycle ⟨env, a, b⟩) := by
  induction depth generalizing env a b v with
  | zero => exact nomatch h
  | succ depth ih =>
      cases situation env a b with
      | @unbound x w b hd =>
          rw [checkedWithin_unbound depth hd] at h
          cases h
          rw [unifyWithin_unbound depth hd]
          have hc := hA.noAliasCycle
          have hw : env.find? w = none :=
            Bindings.settled_var_iff.1 (hd ▸ Bindings.settled_deref hc _)
          exact checkedUnbound_fits hA hw fun hne hocc => ⟨_, w, _, .refl, .intro hd hne, hocc⟩
      | @resolved x c b hd hv =>
          rw [checkedWithin_resolved depth hd hv] at h
          rw [unifyWithin_resolved depth hd hv]
          exact (ih h hA).imp fun hcycle => hcycle.of_call (.resolved b hd hv)
      | @swapped a w ha =>
          rw [checkedWithin_swapped depth ha] at h
          rw [unifyWithin_swapped depth ha]
          exact (ih h hA).imp fun hcycle => hcycle.of_call (.swapped w ha)
      | atoms a =>
          rw [checkedWithin_atoms] at h
          cases h
          exact ⟨hA, _, unifyWithin_atoms depth a⟩
      | nums hmn =>
          rw [checkedWithin_nums depth hmn] at h
          cases h
          exact ⟨hA, _, unifyWithin_nums depth hmn⟩
      | @compounds f as bs hlen =>
          rw [checkedWithin_compounds depth f hlen] at h
          rw [unifyWithin_compounds depth f hlen]
          refine (checkedPairs_fits (fun _ _ _ _ => ih) h hA).imp ?_
          rintro ⟨ps, c, d, qs, events, env', hz, hps, hcycle⟩
          exact hcycle.of_call (.argument hlen hz hps)
      | clash ha hb hab =>
          rw [checkedWithin_clash depth env ha hb hab] at h
          cases h
          obtain ⟨e, -, hrun⟩ := unifyWithin_clash depth env ha hb hab
          exact ⟨_, hrun⟩

theorem checkedPairs_append {step : Bindings → Term → Term → Option Verdict}
    (ps qs : List (Term × Term)) :
    checkedPairs step env (ps ++ qs) =
      match checkedPairs step env ps with
      | some (.success env') => checkedPairs step env' qs
      | verdict => verdict := by
  induction ps generalizing env with
  | nil => rfl
  | cons p ps ih =>
      obtain ⟨a, b⟩ := p
      simp only [List.cons_append, checkedPairs]
      rcases step env a b with _ | ⟨env' | _ | _⟩
      · rfl
      · exact ih
      · rfl
      · rfl

/-- If a run of pairs succeeds, the verdict on them is that, or that there is an occurrence. -/
theorem checkedPairs_of_success {depth depth' : ℕ} {pairs : List (Term × Term)} {v : Verdict}
    {events : List Event} (hv : checkedPairs (checkedWithin depth) env pairs = some v)
    (hA : env.Acyclic)
    (hrun : unifyPairs (unifyWithin depth') env pairs = some ⟨events, some env'⟩) :
    v = .success env' ∧ env'.Acyclic ∨ v = .occurs := by
  have hmax : ∀ r, unifyPairs (unifyWithin depth) env pairs = some r →
      r = ⟨events, some env'⟩ := by
    intro r hr
    have hr' := unifyPairs_mono
      (fun _ _ _ _ => unifyWithin_mono (le_max_left depth depth')) hr
    rw [unifyPairs_mono (fun _ _ _ _ => unifyWithin_mono (le_max_right depth depth')) hrun] at hr'
    exact (Option.some.inj hr').symm
  have hfits := checkedPairs_fits (fun _ _ _ _ => checkedWithin_fits) hv hA
  cases v with
  | success env₁ =>
      obtain ⟨hA₁, events', hr⟩ := hfits
      cases hmax _ hr
      exact .inl ⟨rfl, hA₁⟩
  | clash =>
      obtain ⟨events', hr⟩ := hfits
      exact nomatch hmax _ hr
  | occurs => exact .inr rfl

/-- **If a run makes a cycle, the verdict is that there is an occurrence.** -/
theorem occurs_of_makesCycle {s : State} (h : MakesCycle s) (hA : s.env.Acyclic) {depth : ℕ}
    {v : Verdict} (hv : checkedWithin depth s.env s.left s.right = some v) : v = .occurs := by
  obtain ⟨s', w, t, hcalls, hbinds, hocc⟩ := h
  induction hcalls using ReflTransGen.head_induction_on generalizing depth v with
  | refl =>
      obtain ⟨hw, hne⟩ := hbinds
      cases depth with
      | zero => exact nomatch hv
      | succ depth =>
          rw [checkedWithin_unbound depth hw, checkedUnbound_of_ne hne, checkedBind,
            if_pos (occursIn_iff.2 hocc)] at hv
          exact (Option.some.inj hv).symm
  | head hcall _ ih =>
      cases depth with
      | zero => exact nomatch hv
      | succ depth =>
          cases hcall with
          | resolved b hd ha =>
              rw [checkedWithin_resolved depth hd ha] at hv
              exact ih hA hv
          | swapped w ha =>
              rw [checkedWithin_swapped depth ha] at hv
              exact ih hA hv
          | @argument env env' depth' f as bs a b ps qs events hlen hz hps =>
              rw [checkedWithin_compounds depth f hlen, hz, checkedPairs_append] at hv
              cases hu : checkedPairs (checkedWithin depth) env ps with
              | none => rw [hu] at hv; exact nomatch hv
              | some u =>
                  rw [hu] at hv
                  obtain ⟨rfl, hA'⟩ | rfl := checkedPairs_of_success hu hA hps
                  · -- the verdict on the pair is the verdict on all
                    simp only [checkedPairs] at hv
                    cases hw : checkedWithin depth env' a b with
                    | none => rw [hw] at hv; exact nomatch hv
                    | some u =>
                        rw [hw] at hv
                        cases ih hA' hw
                        exact (Option.some.inj hv).symm
                  · exact (Option.some.inj hv).symm

end LogicTerms.Unification
