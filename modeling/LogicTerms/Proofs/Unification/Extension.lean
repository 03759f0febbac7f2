/-
**What runs do to bindings.**

A run that succeeds has made bindings one by one, each of a variable that was unbound to what some
term stood for, and never to itself.  All that it binds, and all that it binds it to, comes from the
terms that it was given and from the values that these lead to; this is stated for any class of
terms that is closed under arguments and values.

Main definitions:

* `Bindings.Closed` — a class of terms that is closed under arguments and values;
* `Bindings.Extends` — bindings with more bindings made within a class.

Main results:

* `Bindings.Extends.find?_eq` — no value is lost or changed;
* `Bindings.Extends.eq_of_size` — without a new binding nothing is new;
* `Bindings.Extends.noAliasCycle` — no cycle of variables is made;
* `Unification.extension` — what every kind of step does to the bindings;
* `Unification.outcome_extends` — **a run only extends the bindings**, within the class of its terms.
-/

import LogicTerms.Proofs.Bindings.Aliases
import LogicTerms.Proofs.Unification.Runs

set_option relaxedAutoImplicit false
set_option autoImplicit false

namespace LogicTerms

namespace Bindings

variable {P : Term → Prop} {env env' env'' : Bindings}

/-! ### Closed classes of terms -/

/-- The class has the arguments of its compounds and the values of its variables. -/
structure Closed (env : Bindings) (P : Term → Prop) : Prop where
  /-- With a compound, its arguments are in the class. -/
  args : ∀ f as, P (.compound f as) → ∀ a ∈ as, P a
  /-- With a bound variable, its value is in the class. -/
  value : ∀ v t, env.find? v = some t → P (.var v) → P t

theorem closed_true (env : Bindings) : env.Closed fun _ => True :=
  ⟨fun _ _ _ _ _ => trivial, fun _ _ _ _ => trivial⟩

theorem Closed.follow (h : env.Closed P) {n : ℕ} {t : Term} (ht : P t) : P (env.follow n t) := by
  induction n generalizing t with
  | zero => cases t <;> exact ht
  | succ n ih =>
      cases t with
      | var v =>
          rw [Bindings.follow]
          cases hv : env.find? v with
          | none => exact ht
          | some u => exact ih (h.value v u hv ht)
      | _ => exact ht

/-- With a term, what it stands for is in the class. -/
theorem Closed.deref (h : env.Closed P) {t : Term} (ht : P t) : P (env.deref t) := by
  cases t with
  | var v =>
      cases hv : env.find? v with
      | none => rw [deref_of_settled (settled_var_iff.2 hv)]; exact ht
      | some u => rw [deref_of_find? hv]; exact h.follow (h.value v u hv ht)
  | _ => exact ht

theorem Closed.assign (h : env.Closed P) {v : Variable} {t : Term} (ht : P t) :
    (env.assign v t).Closed P := by
  refine ⟨h.args, fun w u hw hP => ?_⟩
  by_cases hid : w.id = v.id
  · rw [find?_assign_self t hid] at hw
    exact Option.some.inj hw ▸ ht
  · rw [find?_assign_of_ne t hid] at hw
    exact h.value w u hw hP

/-! ### Extensions -/

/-- The second bindings are the first with bindings made one by one: each of an unbound variable of
the class, to what a term of the class stands for and not to the variable itself. -/
inductive Extends (P : Term → Prop) (env : Bindings) : Bindings → Prop
  | refl : Extends P env env
  | bind {env' : Bindings} {w : Variable} {u : Term} : Extends P env env' → env'.find? w = none →
      P (.var w) → P u → (∀ x, env'.deref u = .var x → x.id ≠ w.id) →
      Extends P env (env'.assign w (env'.deref u))

namespace Extends

theorem trans (h : Extends P env env') (h' : Extends P env' env'') : Extends P env env'' := by
  induction h' with
  | refl => exact h
  | bind _ hw hP hu hne ih => exact .bind ih hw hP hu hne

theorem closed (h : Extends P env env') (hc : env.Closed P) : env'.Closed P := by
  induction h with
  | refl => exact hc
  | bind _ _ _ hu _ ih => exact ih.assign (ih.deref hu)

/-- **No value is lost or changed.** -/
theorem find?_eq (h : Extends P env env') {v : Variable} {t : Term} (hv : env.find? v = some t) :
    env'.find? v = some t := by
  induction h with
  | refl => exact hv
  | bind _ hw _ _ _ ih => exact contains_assign _ hw v t ih

theorem size_le (h : Extends P env env') : env.size ≤ env'.size := by
  induction h with
  | refl => exact le_refl _
  | bind _ hw _ _ _ ih => rw [size_assign _ hw]; omega

/-- Without a new binding nothing is new. -/
theorem eq_of_size (h : Extends P env env') (hs : env'.size = env.size) : env' = env := by
  cases h with
  | refl => rfl
  | bind h hw _ _ _ =>
      have := h.size_le
      rw [size_assign _ hw] at hs
      omega

/-- Extending bindings makes no cycle of variables. -/
theorem noAliasCycle (h : Extends P env env') (hc : env.NoAliasCycle) : env'.NoAliasCycle := by
  induction h with
  | refl => exact hc
  | bind _ hw _ _ hne ih =>
      refine ih.assign hw fun x hx => hne x ?_
      rw [deref_deref ih] at hx
      exact hx

end Extends

end Bindings

namespace Unification

variable {P : Term → Prop}

/-- Every kind of step extends the bindings within the class of its terms. -/
theorem extension (P : Term → Prop) :
    SuccessInvariant (fun env a b env' => env.Closed P → P a → P b → Bindings.Extends P env env')
      (fun env pairs env' => env.Closed P → (∀ p ∈ pairs, P p.1 ∧ P p.2) →
        Bindings.Extends P env env') where
  same _ _ _ _ _ _ _ _ _ _ _ := .refl
  bind env v b w hw hn hne hc ha hb := .bind .refl hn (hw ▸ hc.deref ha) hb hne
  resolved env v b a env' hd _ ih hc ha hb := ih hc (hd ▸ hc.deref ha) hb
  swapped env a w env' _ ih hc ha hb := ih hc hb ha
  atoms _ _ _ _ _ := .refl
  nums _ _ _ _ _ _ _ := .refl
  compounds env f as bs env' _ ih hc ha hb := by
    refine ih hc fun p hp => ?_
    have hm := List.of_mem_zip (a := p.1) (b := p.2) hp
    exact ⟨hc.args f as ha _ hm.1, hc.args f bs hb _ hm.2⟩
  nil _ _ _ := .refl
  next env a b pairs env₁ env' ih ihs hc hp := by
    have hab := hp (a, b) List.mem_cons_self
    have h₁ := ih hc hab.1 hab.2
    exact h₁.trans (ihs (h₁.closed hc) fun p hm => hp p (List.mem_cons_of_mem _ hm))

/-- **A run only extends the bindings**, and binds variables of the class of its terms to terms of
that class. -/
theorem outcome_extends {depth : ℕ} {env env' : Bindings} {a b : Term} {r : Run}
    (h : unifyWithin depth env a b = some r) (hr : r.outcome = some env') (hc : env.Closed P)
    (ha : P a) (hb : P b) : Bindings.Extends P env env' :=
  (extension P).run h hr hc ha hb

end Unification

end LogicTerms
