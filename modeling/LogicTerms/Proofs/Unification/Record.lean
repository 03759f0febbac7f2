/-
**What a run records.**

The record of a run tells the whole of what the run did to its bindings.  A success records its
bindings and nothing else, in the order in which it made them, each of a variable that was unbound
then to a term that stood for itself.  A failure records the bindings that it had made, and then the
mismatch that it failed for.  So no failure is due to a variable that was bound a second time: a run
binds a variable only after following it to its end, where it is unbound.

All that is bound, and all that it is bound to, comes from the two terms and from the values that
they lead to.  The names that bindings carry play no part.

Main definitions:

* `Bindings.Supplies` — the terms that two terms and the values they lead to consist of;
* `Bindings.Records` — bindings made one by one, as a record has them;
* `Bindings.replay` — the bindings that a record makes;
* `Unification.Recorded` — a run whose record tells what it did;
* `Unification.State.Binds` — a state that binds a variable.

Main results:

* `Unification.recorded` — **every run records what it does**;
* `Unification.bind_eq_ok_of_calls` — no run binds a bound variable;
* `Unification.unify_withNames` — **names play no part in unification**;
* `Unification.unify_extends` — what unification does to bindings.
-/

import LogicTerms.Proofs.Bindings.Acyclic
import LogicTerms.Proofs.Unification.Depth

set_option relaxedAutoImplicit false
set_option autoImplicit false

namespace LogicTerms

open Relation
open Unification (Event Run)

/-- A variable that is a subterm occurs. -/
theorem Term.mentions_of_mem_subterms {t : Term} {v : Variable} (h : Term.var v ∈ t.subterms) :
    t.Mentions v.id := by
  induction t using Term.induct with
  | var w =>
      have h : var v = var w := List.mem_singleton.1 h
      cases h
      exact mentions_var_iff.2 rfl
  | atom c => simp [subterms] at h
  | num n => simp [subterms] at h
  | compound f args ih =>
      rw [subterms, subtermsArgs_eq_flatMap, List.mem_cons, List.mem_flatMap] at h
      obtain h | ⟨c, hc, h⟩ := h
      · cases h
      · exact mentions_compound_iff.2 ⟨c, hc, ih c hc h⟩

namespace Bindings

variable {P : Term → Prop} {env env' env'' : Bindings} {events events' : List Event}

/-! ### Where terms come from -/

/-- The term is a part of one of the two terms, or of a value that these lead to. -/
inductive Supplies (env : Bindings) (a b : Term) : Term → Prop
  | left {t : Term} : t ∈ a.subterms → Supplies env a b t
  | right {t : Term} : t ∈ b.subterms → Supplies env a b t
  | value {i j : UInt64} {u t : Term} : a.Mentions i ∨ b.Mentions i →
      ReflTransGen env.Refers i j → env.values.find? j = some u → t ∈ u.subterms →
      Supplies env a b t

/-- What two terms supply is closed under arguments and values. -/
theorem closed_supplies (env : Bindings) (a b : Term) : env.Closed (env.Supplies a b) := by
  constructor
  · intro f as h c hc
    cases h with
    | left h => exact .left (Term.mem_subterms_of_arg h hc)
    | right h => exact .right (Term.mem_subterms_of_arg h hc)
    | value hi hij hu h => exact .value hi hij hu (Term.mem_subterms_of_arg h hc)
  · intro v t hv h
    cases h with
    | left h => exact .value (.inl (Term.mentions_of_mem_subterms h)) .refl hv t.mem_subterms_self
    | right h => exact .value (.inr (Term.mentions_of_mem_subterms h)) .refl hv t.mem_subterms_self
    | value hi hij hu h =>
        exact .value hi (hij.tail ⟨_, hu, Term.mentions_of_mem_subterms h⟩) hv t.mem_subterms_self

/-! ### Records of bindings -/

/-- What a record says about bindings, put on top of them. -/
def replay (env : Bindings) (events : List Event) : Bindings :=
  events.foldl (fun env e => match e with
    | .bound w t => env.assign w t
    | _ => env) env

/-- The record makes the second bindings from the first: each of an unbound variable of the class, to
a term of the class that stands for itself and is not the variable. -/
inductive Records (P : Term → Prop) : Bindings → List Event → Bindings → Prop
  | nil (env : Bindings) : Records P env [] env
  | bound {env env' : Bindings} {w : Variable} {t : Term} {events : List Event} :
      env.find? w = none → P (.var w) → P t → env.Settled t → (∀ x, t = .var x → x.id ≠ w.id) →
      Records P (env.assign w t) events env' → Records P env (.bound w t :: events) env'

namespace Records

theorem append (h : Records P env events env') (h' : Records P env' events' env'') :
    Records P env (events ++ events') env'' := by
  induction h with
  | nil => exact h'
  | bound hw hP ht hs hne _ ih => exact .bound hw hP ht hs hne (ih h')

/-- Bindings that are made as a record has them are an extension. -/
theorem toExtends (h : Records P env events env') : Extends P env env' := by
  induction h with
  | nil => exact .refl
  | @bound env env' w t events hw hP ht hs hne _ ih =>
      have hd : env.deref t = t := deref_of_settled hs
      have hone : Extends P env (env.assign w (env.deref t)) :=
        .bind .refl hw hP ht fun x hx => hne x (hd ▸ hx)
      exact (hd ▸ hone).trans ih

theorem replay_eq (h : Records P env events env') : env.replay events = env' := by
  induction h with
  | nil => rfl
  | bound _ _ _ _ _ _ ih => exact ih

theorem names_eq (h : Records P env events env') : env'.names = env.names := by
  induction h with
  | nil => rfl
  | bound _ _ _ _ _ _ ih => exact ih

/-- **Every new value is in the record**, where it was given to an unbound variable of the class, and
is a term of the class: no variable, or another variable that was unbound then. -/
theorem exists_bound (h : Records P env events env') {v : Variable} {t : Term}
    (hv : env'.find? v = some t) (hnew : env.find? v = none) :
    ∃ before after w, events = before ++ .bound w t :: after ∧ w.id = v.id ∧ P (.var w) ∧
      (env.replay before).find? w = none ∧
      (t.isVariable = false ∧ P t ∨
        ∃ x, t = .var x ∧ x.id ≠ w.id ∧ (env.replay before).find? x = none) := by
  induction h with
  | nil env =>
      rw [hnew] at hv
      exact nomatch hv
  | @bound env env' w u events hw hP hu hs hne h ih =>
      by_cases hid : v.id = w.id
      · have hvu : env'.find? v = some u := h.toExtends.find?_eq (find?_assign_self u hid)
        rw [hvu] at hv
        cases hv
        refine ⟨[], events, w, rfl, hid.symm, hP, hw, ?_⟩
        cases t with
        | var x => exact .inr ⟨x, rfl, hne x rfl, settled_var_iff.1 hs⟩
        | _ => exact .inl ⟨rfl, hu⟩
      · obtain ⟨before, after, x, rfl, hx⟩ := ih hv ((find?_assign_of_ne u hid).trans hnew)
        exact ⟨_ :: before, after, x, rfl, hx⟩

end Records

end Bindings

namespace Unification

open Bindings

variable {P : Term → Prop} {env env' : Bindings} {a b : Term} {r : Run}

/-! ### Records of runs -/

/-- The record of a run tells what the run did: a success records its bindings, a failure those that
it had made and then a mismatch. -/
def Recorded (P : Term → Prop) (env : Bindings) (r : Run) : Prop :=
  match r.outcome with
  | some env' => Records P env r.events env'
  | none => ∃ before e env', r.events = before ++ [e] ∧ e.isMismatch = true ∧
      Records P env before env'

theorem recorded_ok (env : Bindings) : Recorded P env (.ok env) := .nil env

theorem recorded_fail (env : Bindings) {e : Event} (h : e.isMismatch = true) :
    Recorded P env (.fail e) :=
  ⟨[], e, env, rfl, h, .nil env⟩

theorem Recorded.after {events : List Event} (h : Records P env events env')
    (hr : Recorded P env' r) : Recorded P env (r.after events) := by
  obtain ⟨events', _ | env''⟩ := r
  · obtain ⟨before, e, env'', rfl, he, hbefore⟩ := hr
    exact ⟨events ++ before, e, env'', (List.append_assoc _ _ _).symm, he, h.append hbefore⟩
  · exact h.append hr

/-- Unifying an unbound variable with what a term stands for records the binding, if there is one. -/
theorem recorded_unifyUnbound {w : Variable} {t : Term} (hw : env.find? w = none)
    (hP : P (.var w)) (ht : P t) (hs : env.Settled t) : Recorded P env (unifyUnbound env w t) := by
  have hbind : (∀ x, t = .var x → x.id ≠ w.id) → Recorded P env (bindVariable env w t) := by
    intro hne
    rw [bindVariable, bind_eq_ok_iff.2 ⟨hw, rfl⟩]
    exact .bound hw hP ht hs hne (.nil _)
  cases t with
  | var x =>
      rw [unifyUnbound]
      split
      · exact recorded_ok env
      · rename_i hne
        refine hbind ?_
        rintro y ⟨⟩
        exact hne
  | _ =>
      refine hbind ?_
      rintro x ⟨⟩

/-- **Every run records what it does.** -/
theorem recorded {depth : ℕ} (h : unifyWithin depth env a b = some r) (hc : env.NoAliasCycle)
    (hP : env.Closed P) (ha : P a) (hb : P b) : Recorded P env r := by
  refine run_induction
    (fun env a b r => env.NoAliasCycle → env.Closed P → P a → P b → Recorded P env r)
    (fun env pairs r => env.NoAliasCycle → env.Closed P → (∀ p ∈ pairs, P p.1 ∧ P p.2) →
      Recorded P env r)
    ?_ ?_ ?_ ?_ ?_ ?_ ?_ ?_ ?_ ?_ h hc hP ha hb
  · intro env v b w hw hc hP ha hb
    have hn : env.find? w = none := settled_var_iff.1 (hw ▸ settled_deref hc _)
    exact recorded_unifyUnbound hn (hw ▸ hP.deref ha) (hP.deref hb) (settled_deref hc b)
  · intro env v b a r hd _ ih hc hP ha hb
    exact ih hc hP (hd ▸ hP.deref ha) hb
  · intro env a w r _ ih hc hP ha hb
    exact ih hc hP hb ha
  · intro env a _ _ _ _
    exact recorded_ok env
  · intro env m n _ _ _ _ _
    exact recorded_ok env
  · intro env f as bs r _ ih hc hP ha hb
    refine ih hc hP fun p hp => ?_
    have hm := List.of_mem_zip (a := p.1) (b := p.2) hp
    exact ⟨hP.args f as ha _ hm.1, hP.args f bs hb _ hm.2⟩
  · intro env a b e _ _ _ he _ _ _ _
    exact recorded_fail env he
  · intro env _ _ _
    exact recorded_ok env
  · intro env a b pairs events ih hc hP hp
    have hab := hp (a, b) List.mem_cons_self
    exact ih hc hP hab.1 hab.2
  · intro env a b pairs events env₁ r ih ihs hc hP hp
    have hab := hp (a, b) List.mem_cons_self
    have h₁ : Records P env events env₁ := ih hc hP hab.1 hab.2
    refine .after h₁ (ihs (h₁.toExtends.noAliasCycle hc) (h₁.toExtends.closed hP) fun p hm => ?_)
    exact hp p (List.mem_cons_of_mem _ hm)

/-! ### Bindings of unbound variables -/

/-- The state binds the variable to the term. -/
inductive State.Binds : State → Variable → Term → Prop
  | intro {env : Bindings} {v w : Variable} {b : Term} : env.deref (.var v) = .var w →
      (∀ x, env.deref b = .var x → x.id ≠ w.id) → State.Binds ⟨env, .var v, b⟩ w (env.deref b)

/-- The run of a state that binds calls for that binding and for nothing else. -/
theorem State.Binds.run_eq {s : State} {w : Variable} {t : Term} (h : s.Binds w t) (depth : ℕ) :
    s.run (depth + 1) = some (bindVariable s.env w t) := by
  obtain ⟨hw, hne⟩ := h
  rw [State.run, unifyWithin_unbound depth hw]
  generalize Bindings.deref _ _ = t at hne ⊢
  cases t with
  | var x => rw [unifyUnbound, if_neg (hne x rfl)]
  | _ => rfl

/-- **No run binds a bound variable**, whether it succeeds, fails or never ends. -/
theorem bind_eq_ok_of_calls {s s' : State} (h : ReflTransGen Calls s s') (hc : s.env.NoAliasCycle)
    {w : Variable} {t : Term} (hb : s'.Binds w t) : s'.env.bind w t = .ok (s'.env.assign w t) := by
  obtain ⟨hext, -⟩ := extends_of_calls h (closed_true s.env) trivial trivial
  have hc' : s'.env.NoAliasCycle := hext.noAliasCycle hc
  cases hb with
  | intro hw _ => exact bind_eq_ok_iff.2 ⟨settled_var_iff.1 (hw ▸ settled_deref hc' _), rfl⟩

/-! ### Names -/

variable {vars : List Variable}

theorem follow_withNames (steps : ℕ) (t : Term) :
    (env.withNames vars).follow steps t = env.follow steps t := by
  induction steps generalizing t with
  | zero => cases t <;> rfl
  | succ steps ih =>
      cases t with
      | var v =>
          rw [follow, follow]
          have hv : (env.withNames vars).find? v = env.find? v := rfl
          rw [hv]
          cases env.find? v with
          | none => rfl
          | some u => exact ih u
      | _ => rfl

/-- What terms stand for does not depend on names. -/
theorem deref_withNames (t : Term) : (env.withNames vars).deref t = env.deref t := by
  cases t with
  | var v =>
      have hv : (env.withNames vars).find? v = env.find? v := rfl
      cases hf : env.find? v with
      | none =>
          rw [deref_of_settled (settled_var_iff.2 hf), deref_of_settled (settled_var_iff.2 (hv.trans hf))]
      | some u =>
          rw [deref_of_find? hf, deref_of_find? (hv.trans hf)]
          exact follow_withNames env.size u
  | _ => rfl

/-- The run, with named variables in its bindings. -/
def Run.withNames (r : Run) (vars : List Variable) : Run :=
  ⟨r.events, r.outcome.map fun env => env.withNames vars⟩

theorem bindVariable_withNames (w : Variable) (t : Term) :
    bindVariable (env.withNames vars) w t = (bindVariable env w t).withNames vars := by
  have hb : (env.withNames vars).isBound w = env.isBound w := rfl
  rw [bindVariable, bindVariable, Bindings.bind, Bindings.bind, hb]
  cases env.isBound w <;> rfl

theorem unifyUnbound_withNames (w : Variable) (t : Term) :
    unifyUnbound (env.withNames vars) w t = (unifyUnbound env w t).withNames vars := by
  cases t with
  | var x =>
      rw [unifyUnbound, unifyUnbound]
      split
      · rfl
      · exact bindVariable_withNames w _
  | _ => exact bindVariable_withNames w _

theorem unifyPairs_withNames {step : Bindings → Term → Term → Option Run}
    (hstep : ∀ env a b, step (env.withNames vars) a b = (step env a b).map (Run.withNames · vars))
    (env : Bindings) (pairs : List (Term × Term)) :
    unifyPairs step (env.withNames vars) pairs =
      (unifyPairs step env pairs).map (Run.withNames · vars) := by
  induction pairs generalizing env with
  | nil => rfl
  | cons p pairs ih =>
      obtain ⟨a, b⟩ := p
      rw [unifyPairs, unifyPairs, hstep]
      rcases step env a b with _ | ⟨events, _ | env'⟩
      · rfl
      · rfl
      · simp only [Option.map_some, Run.withNames, ih, Option.map_map]
        rfl

/-- Within any depth, names play no part. -/
theorem unifyWithin_withNames (vars : List Variable) (depth : ℕ) (env : Bindings) (a b : Term) :
    unifyWithin depth (env.withNames vars) a b =
      (unifyWithin depth env a b).map (Run.withNames · vars) := by
  induction depth generalizing env a b with
  | zero => rfl
  | succ depth ih =>
      cases situation env a b with
      | @unbound v w b hd =>
          rw [unifyWithin_unbound depth hd, unifyWithin_unbound depth ((deref_withNames _).trans hd),
            deref_withNames, unifyUnbound_withNames]
          rfl
      | @resolved v c b hd hc =>
          rw [unifyWithin_resolved depth hd hc,
            unifyWithin_resolved depth ((deref_withNames _).trans hd) hc, ih]
      | @swapped a w ha => rw [unifyWithin_swapped depth ha, unifyWithin_swapped depth ha, ih]
      | atoms a => rw [unifyWithin_atoms, unifyWithin_atoms]; rfl
      | nums hmn => rw [unifyWithin_nums depth hmn, unifyWithin_nums depth hmn]; rfl
      | @compounds f as bs hlen =>
          rw [unifyWithin_compounds depth f hlen, unifyWithin_compounds depth f hlen,
            unifyPairs_withNames ih]
      | @clash a b ha hb hab =>
          obtain ⟨e, -, hrun⟩ := exists_clash ha hb hab
          rw [hrun, hrun]
          rfl

/-- **Names play no part in unification**, and are kept. -/
theorem unify_withNames (vars : List Variable) (env : Bindings) (a b : Term) :
    unify (env.withNames vars) a b = (unify env a b).map (Run.withNames · vars) :=
  unifyWithin_withNames vars _ env a b

/-! ### What unification does to bindings -/

/-- **Unification only extends the bindings.**  A success keeps all values and the names, and makes
the bindings that it records: of variables of the two terms and of the values that these lead to,
each unbound until then, to parts of these that are no variables or to other variables that were
unbound then.  A failure is always due to a mismatch; on the way to any outcome, or to none, every
variable that is bound can be bound.  And names play no part. -/
theorem unify_extends (hc : env.NoAliasCycle) (a b : Term) :
    (∀ r env', unify env a b = some r → r.outcome = some env' →
      (∀ v t, env.find? v = some t → env'.find? v = some t) ∧
      env'.names = env.names ∧
      env.replay r.events = env' ∧
      ∀ v t, env'.find? v = some t → env.find? v = none →
        ∃ before after w, r.events = before ++ .bound w t :: after ∧ w.id = v.id ∧
          env.Supplies a b (.var w) ∧ (env.replay before).find? w = none ∧
          (t.isVariable = false ∧ env.Supplies a b t ∨
            ∃ x, t = .var x ∧ x.id ≠ w.id ∧ (env.replay before).find? x = none)) ∧
    (∀ r, unify env a b = some r → r.outcome = none →
      ∃ before e, r.events = before ++ [e] ∧ e.isMismatch = true) ∧
    (∀ s w t, ReflTransGen Calls ⟨env, a, b⟩ s → s.Binds w t →
      s.env.bind w t = .ok (s.env.assign w t) ∧
        ∀ depth, s.run (depth + 1) = some ⟨[.bound w t], some (s.env.assign w t)⟩) ∧
    ∀ vars, unify (env.withNames vars) a b = (unify env a b).map (Run.withNames · vars) := by
  have hrecord : ∀ r, unify env a b = some r → Recorded (env.Supplies a b) env r := fun r h =>
    recorded h hc (closed_supplies env a b) (.left a.mem_subterms_self) (.right b.mem_subterms_self)
  refine ⟨?_, ?_, ?_, fun vars => unify_withNames vars env a b⟩
  · intro r env' h hr
    have hr' := hrecord r h
    rw [Recorded, hr] at hr'
    exact ⟨fun v t => hr'.toExtends.find?_eq, hr'.names_eq, hr'.replay_eq,
      fun v t => hr'.exists_bound⟩
  · intro r h hr
    have hr' := hrecord r h
    rw [Recorded, hr] at hr'
    obtain ⟨before, e, -, hevents, he, -⟩ := hr'
    exact ⟨before, e, hevents, he⟩
  · intro s w t hs hw
    have hok := bind_eq_ok_of_calls hs hc hw
    exact ⟨hok, fun depth => by rw [hw.run_eq, bindVariable, hok]⟩

/-- A variable is bound to another that is bound only later, through the value of a third. -/
theorem unify_extends_alias :
    ∃ r env', unify (.assign .empty ⟨"Z", 3⟩ (.compound "g" [.var ⟨"Y", 2⟩]))
        (.compound "f" [.var ⟨"X", 1⟩, .var ⟨"Z", 3⟩])
        (.compound "f" [.var ⟨"Y", 2⟩, .compound "g" [.atom "a"]]) = some r ∧
      r.outcome = some env' ∧ env'.find? ⟨"Y", 2⟩ = some (.atom "a") ∧
      env'.find? ⟨"Z", 3⟩ = some (.compound "g" [.var ⟨"Y", 2⟩]) ∧
      ∃ before after w, r.events = before ++ .bound w (.var ⟨"Y", 2⟩) :: after ∧ w.id = 1 ∧
        (Bindings.replay (.assign .empty ⟨"Z", 3⟩ (.compound "g" [.var ⟨"Y", 2⟩])) before).find?
          ⟨"Y", 2⟩ = none := by
  have hc : NoAliasCycle (.assign .empty ⟨"Z", 3⟩ (.compound "g" [.var ⟨"Y", 2⟩])) :=
    noAliasCycle_empty.assign rfl fun w hw => nomatch hw
  have hrun : unify (.assign .empty ⟨"Z", 3⟩ (.compound "g" [.var ⟨"Y", 2⟩]))
      (.compound "f" [.var ⟨"X", 1⟩, .var ⟨"Z", 3⟩])
      (.compound "f" [.var ⟨"Y", 2⟩, .compound "g" [.atom "a"]]) =
      some ⟨[.bound ⟨"X", 1⟩ (.var ⟨"Y", 2⟩), .bound ⟨"Y", 2⟩ (.atom "a")],
        some (.assign (.assign (.assign .empty ⟨"Z", 3⟩ (.compound "g" [.var ⟨"Y", 2⟩])) ⟨"X", 1⟩
          (.var ⟨"Y", 2⟩)) ⟨"Y", 2⟩ (.atom "a"))⟩ := rfl
  obtain ⟨hkeep, -, -, hnew⟩ := (unify_extends hc _ _).1 _ _ hrun rfl
  obtain ⟨before, after, w, hevents, hw, -, -, h⟩ := hnew ⟨"X", 1⟩ (.var ⟨"Y", 2⟩) rfl rfl
  refine ⟨_, _, hrun, rfl, rfl, hkeep _ _ rfl, before, after, w, hevents, hw, ?_⟩
  obtain ⟨⟨⟩, -⟩ | ⟨x, hx, -, hunbound⟩ := h
  cases hx
  exact hunbound

end Unification

end LogicTerms
