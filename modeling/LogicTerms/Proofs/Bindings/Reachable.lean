/-
**Bindings that a program can come to.**

A program starts without bindings.  It extends them by unification, by calls of native predicates
and by binding single variables, and it attaches names.  None of this makes a cycle of variables,
as long as nobody binds a variable to what already stands for it; cycles through compounds, like
that of `X = f(X)`, do no harm.  So every walk along bindings ends, and never goes along more
of them than there are.

Main definitions:

* `Bindings.Reachable` — the bindings that a program can come to.

Main results:

* `Bindings.Reachable.noAliasCycle` — **no step makes a cycle of variables**;
* `Bindings.reachable_resolves` — what a variable stands for can always be found.
-/

import LogicTerms.Proofs.Bindings.Acyclic
import LogicTerms.Proofs.Reply.Resolution
import LogicTerms.Proofs.Unification.Extension

set_option relaxedAutoImplicit false
set_option autoImplicit false

namespace LogicTerms

variable {env env' : Bindings}

/-! ### Steps -/

/-- Unification makes no cycle of variables. -/
theorem Unification.noAliasCycle_of_unify {a b : Term} {r : Unification.Run}
    (h : Unification.unify env a b = some r) (hr : r.outcome = some env')
    (hc : env.NoAliasCycle) : env'.NoAliasCycle :=
  (Unification.outcome_extends h hr env.closed_true trivial trivial).noAliasCycle hc

/-- Resolving a reply makes no cycle of variables. -/
theorem Reply.noAliasCycle_of_resolve {reply : Reply} {resolution : Reply.Resolution}
    (h : reply.resolve env = some resolution) (hr : resolution.outcome = .ok (some env'))
    (hc : env.NoAliasCycle) : env'.NoAliasCycle := by
  cases reply with
  | success =>
      cases h
      cases hr
      exact hc
  | failure =>
      cases h
      exact nomatch hr
  | unify pairs =>
      rw [Reply.resolve_unify] at h
      obtain ⟨r, hrun, rfl⟩ := Option.map_eq_some_iff.1 h
      have hextends := (Unification.extension fun _ => True).pairs
        (fun _ _ _ _ hstep => ⟨_, hstep⟩) hrun (Except.ok.inj hr) env.closed_true
        fun _ _ => ⟨trivial, trivial⟩
      exact hextends.noAliasCycle hc
  | exception message =>
      cases h
      exact nomatch hr

namespace Bindings

/-- Binding a variable makes no cycle of variables, if the value does not stand for the variable. -/
theorem noAliasCycle_of_bind {v : Variable} {t : Term} (h : env.bind v t = .ok env')
    (ht : ∀ w, env.deref t = .var w → w.id ≠ v.id) (hc : env.NoAliasCycle) :
    env'.NoAliasCycle := by
  obtain ⟨hv, rfl⟩ := bind_eq_ok_iff.1 h
  exact hc.assign hv ht

/-! ### Reachable bindings -/

/-- The bindings that a program can come to from none. -/
inductive Reachable : Bindings → Prop
  | empty : Reachable .empty
  /-- Two terms were unified. -/
  | unify {env env' : Bindings} {a b : Term} {r : Unification.Run} : Reachable env →
      Unification.unify env a b = some r → r.outcome = some env' → Reachable env'
  /-- A reply was resolved. -/
  | resolve {env env' : Bindings} {reply : Reply} {resolution : Reply.Resolution} :
      Reachable env → reply.resolve env = some resolution →
      resolution.outcome = .ok (some env') → Reachable env'
  /-- A native predicate was called. -/
  | call {env env' : Bindings} {p : Predicate} {args : List Term} {c : Predicate.Call}
      {resolution : Reply.Resolution} : Reachable env → p.call env args = .ok c →
      c.resolution = some resolution → resolution.outcome = .ok (some env') → Reachable env'
  /-- Names were attached. -/
  | withNames {env : Bindings} (vars : List Variable) : Reachable env →
      Reachable (env.withNames vars)
  /-- A variable was bound to a term that did not stand for it. -/
  | bind {env env' : Bindings} {v : Variable} {t : Term} : Reachable env →
      env.bind v t = .ok env' → (∀ w, env.deref t = .var w → w.id ≠ v.id) → Reachable env'

/-- **No step makes a cycle of variables.** -/
theorem Reachable.noAliasCycle (h : env.Reachable) : env.NoAliasCycle := by
  induction h with
  | empty => exact noAliasCycle_empty
  | unify _ hrun hr ih => exact Unification.noAliasCycle_of_unify hrun hr ih
  | resolve _ hres hr ih => exact Reply.noAliasCycle_of_resolve hres hr ih
  | @call env env' p args c resolution _ hcall hres hr ih =>
      -- what a predicate replies is arbitrary, and a call only resolves it
      rw [Predicate.call] at hcall
      cases hp : p env args with
      | error e => rw [hp] at hcall; exact nomatch hcall
      | ok reply =>
          rw [hp] at hcall
          cases hcall
          exact Reply.noAliasCycle_of_resolve hres hr ih
  | withNames vars _ ih => exact ih
  | bind _ hbind ht ih => exact noAliasCycle_of_bind hbind ht ih

/-- **What a variable stands for can always be found** in bindings that a program can come to:
variables make no cycle, no walk goes along more bindings than there are, and `resolve?` gives
nothing exactly to the unbound variables and to the others the end of their walk, which is no bound
variable and stands for itself. -/
theorem reachable_resolves (h : env.Reachable) :
    env.NoAliasCycle ∧ (∀ n v t, env.Follows n (.var v) t → n ≤ env.size) ∧
      (∀ v, env.resolve? v = none ↔ env.isBound v = false) ∧
      (∀ v t, env.resolve? v = some t →
        (∃ n, env.Follows n (.var v) t) ∧ env.Settled t) ∧
      ∀ t, env.deref (env.deref t) = env.deref t := by
  have hc := h.noAliasCycle
  refine ⟨hc, ?_, ?_, ?_, deref_deref hc⟩
  · intro n v t hn
    obtain ⟨m, hm, hf, hs⟩ := follows_deref hc (.var v)
    exact (hn.le_of_settled hf hs).trans hm
  · intro v
    rw [resolve?_eq_none_iff, isBound_eq_false_iff]
  · intro v t hv
    obtain ⟨n, -, hf, hs⟩ := follows_deref hc (.var v)
    have hd : env.deref (.var v) = t := by rw [deref, hv, Option.getD_some]
    rw [hd] at hf hs
    exact ⟨⟨n, hf⟩, hs⟩

/-- A variable has become part of its own value. -/
theorem reachable_resolves_cyclic :
    ∃ env : Bindings, env.Reachable ∧ ¬ env.Acyclic ∧ env.NoAliasCycle ∧
      env.size = 1 ∧ (∀ n v t, env.Follows n (.var v) t → n ≤ 1) ∧
      env.resolve? ⟨"X", 1⟩ = some (.compound "f" [.var ⟨"X", 1⟩]) := by
  have hreach : Reachable (.assign .empty ⟨"X", 1⟩ (.compound "f" [.var ⟨"X", 1⟩])) :=
    .unify (a := .var ⟨"X", 1⟩) (b := .compound "f" [.var ⟨"X", 1⟩]) .empty rfl rfl
  obtain ⟨hc, hsteps, -⟩ := reachable_resolves hreach
  refine ⟨_, hreach, fun hA => hA 1 (.single ?_), hc, rfl, hsteps, rfl⟩
  exact ⟨_, rfl, ⟨"X", 1⟩, List.mem_cons_self, rfl⟩

end Bindings

end LogicTerms
