/-
**A reply of pairs is one compound unification.**

Terms that a reply says to unify two by two could as well be the arguments of two terms of one
functor: the pairs are unified in the same order, each under the bindings that the one before has
left, and the first that fails ends both.  So replies are resolved as terms are unified, with the
same record and the same bindings, and never with an error.

What comes of a list of terms is determined part by part.  The terms behind a place are resolved
under the bindings that those before it have left, and nothing behind a pair that fails is looked
at, not even a pair whose unification would never end.

Main definitions:

* `Reply.Enumerates` — pairs that hold the terms of a list, two by two;
* `Reply.Resolution.ofRun` — what comes of a reply whose unifications are a run;
* `Reply.resolveThen` — one reply resolved after another.

Main results:

* `Reply.enumerates_flatten` — no term is lost, repeated or in the wrong place;
* `Reply.resolveTerms_flatten` — the loop over terms and the loop over arguments;
* `Unification.unify_apply` — terms of one functor are unified as pairs;
* `Reply.resolve_append`, `Reply.resolve_of_failure` — pairs behind others;
* `Unification.unify_eq_none_of_cycles` — runs that never end;
* `Reply.resolve_as_compound` — **a reply of pairs is one compound unification**.
-/

import LogicTerms.Proofs.Unification.Pairs
import LogicTerms.Reply

set_option relaxedAutoImplicit false
set_option autoImplicit false

namespace LogicTerms

namespace Unification

/-! ### Terms of one functor -/

/-- Terms of one functor are unified as the pairs of their arguments; without arguments they are
equal atoms. -/
theorem unify_apply (f : String) (env : Bindings) (ps : List (Term × Term)) :
    unify env (.apply f (ps.map Prod.fst)) (.apply f (ps.map Prod.snd)) =
      unifyPairs unify env ps := by
  cases ps with
  | nil => exact unifyWithin_atoms _ f
  | cons p ps =>
      refine Option.ext fun r => ?_
      exact (unifyPairs_unify_iff f).symm

/-! ### Runs that never end -/

section Cycles

variable {env : Bindings} {f : String} {v w : Variable}

/-- Of variables that stand for compounds of themselves, four states lead to one another: those of
the variables, of the compound of one and the other variable, the same with changed sides, and of
both compounds. -/
theorem unifyWithin_eq_none_of_cycles (hv : env.deref (.var v) = .compound f [.var v])
    (hw : env.deref (.var w) = .compound f [.var w]) (depth : ℕ) :
    unifyWithin depth env (.var v) (.var w) = none ∧
      unifyWithin depth env (.compound f [.var v]) (.var w) = none ∧
      unifyWithin depth env (.var w) (.compound f [.var v]) = none ∧
      unifyWithin depth env (.compound f [.var w]) (.compound f [.var v]) = none := by
  induction depth generalizing v w with
  | zero => exact ⟨rfl, rfl, rfl, rfl⟩
  | succ depth ih =>
      obtain ⟨-, hleft, hright, hboth⟩ := ih hv hw
      refine ⟨?_, ?_, ?_, ?_⟩
      · rw [unifyWithin_resolved depth hv rfl, hleft]
      · rw [unifyWithin_swapped depth rfl, hright]
      · rw [unifyWithin_resolved depth hw rfl, hboth]
      · have hargs := (ih hw hv).1
        have hlength : [Term.var w].length = [Term.var v].length := rfl
        rw [unifyWithin_compounds depth f hlength]
        simp only [List.zip_cons_cons, unifyPairs, hargs]

/-- Variables that stand for compounds of themselves are unified for ever. -/
theorem unify_eq_none_of_cycles (hv : env.deref (.var v) = .compound f [.var v])
    (hw : env.deref (.var w) = .compound f [.var w]) : unify env (.var v) (.var w) = none :=
  (unifyWithin_eq_none_of_cycles hv hw _).1

end Cycles

end Unification

namespace Reply

open Unification

/-! ### Pairs of terms -/

theorem flatten_cons (p : Term × Term) (ps : List (Term × Term)) :
    flatten (p :: ps) = p.1 :: p.2 :: flatten ps := rfl

theorem flatten_append (ps qs : List (Term × Term)) :
    flatten (ps ++ qs) = flatten ps ++ flatten qs := List.flatMap_append

/-- The terms of pairs form these pairs. -/
theorem pairs?_flatten (ps : List (Term × Term)) : pairs? (flatten ps) = some ps := by
  induction ps with
  | nil => rfl
  | cons p ps ih => rw [flatten_cons, pairs?, ih, Option.map_some]

theorem ofTerms_flatten (ps : List (Term × Term)) : ofTerms (flatten ps) = .ok (unify ps) := by
  rw [ofTerms, pairs?_flatten]

/-- An even number of terms are those of some pairs. -/
theorem exists_flatten_eq {ts : List Term} (h : ts.length % 2 = 0) : ∃ ps, flatten ps = ts := by
  cases hps : pairs? ts with
  | none =>
      have hodd := (pairs?_eq_none_iff ts).1 hps
      omega
  | some ps => exact ⟨ps, flatten_of_pairs? hps⟩

/-- The pairs hold the terms of the list, two by two. -/
structure Enumerates (ps : List (Term × Term)) (ts : List Term) : Prop where
  /-- Their terms are those of the list, in its order. -/
  flatten_eq : flatten ps = ts
  /-- There are half as many of them. -/
  length_eq : 2 * ps.length = ts.length
  /-- Each holds the two terms at its place. -/
  getElem?_eq : ∀ i p, ps[i]? = some p → ts[2 * i]? = some p.1 ∧ ts[2 * i + 1]? = some p.2

/-- **No term is lost, repeated or in the wrong place.** -/
theorem enumerates_flatten (ps : List (Term × Term)) : Enumerates ps (flatten ps) := by
  induction ps with
  | nil => exact ⟨rfl, rfl, fun i p h => nomatch h⟩
  | cons q ps ih =>
      refine ⟨rfl, ?_, fun i p h => ?_⟩
      · rw [flatten_cons, List.length_cons, List.length_cons, List.length_cons, ← ih.length_eq]
        omega
      · cases i with
        | zero =>
            cases h
            exact ⟨rfl, rfl⟩
        | succ i => exact ih.getElem?_eq i p h

/-! ### Resolution -/

/-- What comes of a reply whose unifications are a run. -/
def Resolution.ofRun (r : Run) : Resolution := ⟨r.events, .ok r.outcome⟩

/-- Resolves a reply and, under the bindings that it has left, another. -/
def resolveThen (env : Bindings) (first second : Reply) : Option Resolution :=
  (first.resolve env).bind fun s =>
    match s.outcome with
    | .ok (some env') => (second.resolve env').map (.after s.events)
    | _ => some s

variable {env env' : Bindings} {ps : List (Term × Term)}

/-- **The loop over the terms of pairs is the loop over the arguments of compounds**, whatever the
way to unify two terms: both take the bindings from one pair to the next, and stop at the same. -/
theorem resolveTerms_flatten (step : Bindings → Term → Term → Option Run) (env : Bindings)
    (ps : List (Term × Term)) :
    resolveTerms step env (flatten ps) = (unifyPairs step env ps).map Resolution.ofRun := by
  induction ps generalizing env with
  | nil => rfl
  | cons p ps ih =>
      obtain ⟨a, b⟩ := p
      rw [flatten_cons, resolveTerms, unifyPairs]
      obtain _ | ⟨events, _ | next⟩ := step env a b
      · rfl
      · rfl
      · show (resolveTerms step next (flatten ps)).map (.after events) =
          ((unifyPairs step next ps).map (Run.after events)).map Resolution.ofRun
        rw [ih, Option.map_map, Option.map_map]
        rfl

theorem resolve_unify (env : Bindings) (ps : List (Term × Term)) :
    (unify ps).resolve env = (unifyPairs Unification.unify env ps).map Resolution.ofRun :=
  resolveTerms_flatten Unification.unify env ps

/-- Pairs behind others are resolved under the bindings that those have left. -/
theorem resolve_append (env : Bindings) (ps qs : List (Term × Term)) :
    (unify (ps ++ qs)).resolve env = resolveThen env (unify ps) (unify qs) := by
  rw [resolveThen, resolve_unify, resolve_unify, unifyPairs_append]
  obtain _ | ⟨events, _ | env'⟩ := unifyPairs Unification.unify env ps
  · rfl
  · rfl
  · show ((unifyPairs Unification.unify env' qs).map (Run.after events)).map Resolution.ofRun =
      ((unify qs).resolve env').map (Resolution.after events)
    rw [resolve_unify, Option.map_map, Option.map_map]
    rfl

/-- Nothing behind a pair that fails is looked at. -/
theorem resolve_of_failure {a b : Term} {events events' : List Event}
    (h : (unify ps).resolve env = some ⟨events, .ok (some env')⟩)
    (hab : Unification.unify env' a b = some ⟨events', none⟩) (qs : List (Term × Term)) :
    (unify (ps ++ (a, b) :: qs)).resolve env = some ⟨events ++ events', .ok none⟩ := by
  have hcons : (unify ((a, b) :: qs)).resolve env' = some ⟨events', .ok none⟩ := by
    rw [resolve_unify, unifyPairs, hab]
    rfl
  rw [resolve_append, resolveThen, h]
  show ((unify ((a, b) :: qs)).resolve env').map (Resolution.after events) = _
  rw [hcons]
  rfl

/-- **A reply of pairs is one compound unification.**  An even number of terms form pairs, and to
resolve them is to unify the terms of one functor that have the sides of the pairs as arguments:
neither ends if the other does not, and they end with the same record, and the same bindings or a
failure.  More terms behind them are resolved under the bindings that they have left; and if the
next pair fails under these, so does the whole, whatever terms follow. -/
theorem resolve_as_compound {ts : List Term} (ht : ts.length % 2 = 0) :
    ∃ ps, ofTerms ts = .ok (unify ps) ∧ Enumerates ps ts ∧
      (∀ (f : String) (env : Bindings), (unify ps).resolve env =
        (Unification.unify env (.apply f (ps.map Prod.fst)) (.apply f (ps.map Prod.snd))).map
          Resolution.ofRun) ∧
      (∀ us : List Term, us.length % 2 = 0 → ∃ qs, ofTerms us = .ok (unify qs) ∧
        ofTerms (ts ++ us) = .ok (unify (ps ++ qs)) ∧
        ∀ env, (unify (ps ++ qs)).resolve env = resolveThen env (unify ps) (unify qs)) ∧
      (∀ (env env' : Bindings) (a b : Term) (events events' : List Event),
        (unify ps).resolve env = some ⟨events, .ok (some env')⟩ →
        Unification.unify env' a b = some ⟨events', none⟩ →
        ∀ us : List Term, us.length % 2 = 0 → ∃ r, ofTerms (ts ++ a :: b :: us) = .ok r ∧
          r.resolve env = some ⟨events ++ events', .ok none⟩) := by
  obtain ⟨ps, rfl⟩ := exists_flatten_eq ht
  refine ⟨ps, ofTerms_flatten ps, enumerates_flatten ps, fun f env => ?_, fun us hus => ?_,
    fun env env' a b events events' hps hab us hus => ?_⟩
  · rw [unify_apply, resolve_unify]
  · obtain ⟨qs, rfl⟩ := exists_flatten_eq hus
    refine ⟨qs, ofTerms_flatten qs, ?_, fun env => resolve_append env ps qs⟩
    rw [← flatten_append, ofTerms_flatten]
  · obtain ⟨qs, rfl⟩ := exists_flatten_eq hus
    refine ⟨unify (ps ++ (a, b) :: qs), ?_, resolve_of_failure hps hab qs⟩
    rw [← ofTerms_flatten, flatten_append, flatten_cons]

/-- Two variables that stand for compounds of themselves. -/
def selfReferences : Bindings :=
  (Bindings.empty.assign ⟨"X", 1⟩ (.compound "f" [.var ⟨"X", 1⟩])).assign ⟨"Y", 2⟩
    (.compound "f" [.var ⟨"Y", 2⟩])

/-- A pair that holds, one that fails, and one whose unification never ends. -/
theorem resolve_as_compound_stops :
    (∃ r, ofTerms [.atom "a", .atom "a", .atom "a", .atom "b", .var ⟨"X", 1⟩, .var ⟨"Y", 2⟩] =
        .ok r ∧
      r.resolve selfReferences = some ⟨[.mismatch (.atom "a") (.atom "b")], .ok none⟩) ∧
    (unify [(.var ⟨"X", 1⟩, .var ⟨"Y", 2⟩)]).resolve selfReferences = none := by
  have heven : ([.atom "a", .atom "a"] : List Term).length % 2 = 0 := rfl
  obtain ⟨ps, hps, -, -, -, hfails⟩ := resolve_as_compound heven
  cases hps
  refine ⟨hfails selfReferences selfReferences (.atom "a") (.atom "b") [] _ rfl rfl
    [.var ⟨"X", 1⟩, .var ⟨"Y", 2⟩] rfl, ?_⟩
  have hnone : Unification.unify selfReferences (.var ⟨"X", 1⟩) (.var ⟨"Y", 2⟩) = none :=
    unify_eq_none_of_cycles rfl rfl
  rw [resolve_unify, unifyPairs, hnone]
  rfl

end Reply

end LogicTerms
