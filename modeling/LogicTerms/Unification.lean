/-
**Unification.**

Unifying two terms under bindings extends the bindings so that the terms come to stand for the same
term.  A variable is followed on both sides before it is bound; compounds are unified argument by
argument, from left to right, each under the bindings that the one before has left.  There is no
check whether a variable occurs in the term that it is bound to.

Because of that a run may go on for ever, but then it comes back to a state that it was in before.
A run within a given depth of nested steps is a total function, `unifyWithin`, whose outcome does not
change with more depth; `unify` takes a depth that no run exceeds without repeating a state.

A run keeps a record of the bindings it makes and of the mismatch that ends it.

Main definitions:

* `Unification.Event` — a binding, or a mismatch;
* `Unification.Run` — the record of a run, and its outcome;
* `Unification.unifyWithin` — a run within a depth;
* `Unification.unifyPairs` — one run after the other, each under the bindings of the one before;
* `Unification.unify` — a run.

Main results:

* `Unification.unifyWithin_mono` — more depth does not change the outcome of a run;
* `Unification.unifyPairs_append` — pairs can be split anywhere.
-/

import LogicTerms.Bindings.Basic

set_option relaxedAutoImplicit false
set_option autoImplicit false

namespace LogicTerms.Unification

/-! ### Runs -/

/-- Something that a run records. -/
inductive Event where
  /-- The variable was bound to the term. -/
  | bound (v : Variable) (t : Term)
  /-- The terms are different and cannot be made the same. -/
  | mismatch (left right : Term)
  /-- The compounds have different functors or numbers of arguments. -/
  | functorMismatch (left : String) (leftArity : Nat) (right : String) (rightArity : Nat)

/-- A finished run: what it recorded, and the bindings that it ended with, if it succeeded. -/
structure Run where
  /-- The record, in order. -/
  events : List Event
  /-- The bindings of a success. -/
  outcome : Option Bindings

namespace Run

/-- A success without a record. -/
def ok (env : Bindings) : Run := ⟨[], some env⟩

/-- A failure that records why. -/
def fail (event : Event) : Run := ⟨[event], none⟩

/-- The run with a record put in front of its own. -/
def after (events : List Event) (r : Run) : Run := ⟨events ++ r.events, r.outcome⟩

end Run

/-! ### Steps -/

/-- Binds a variable that has been followed to its end. -/
def bindVariable (env : Bindings) (v : Variable) (t : Term) : Run :=
  match env.bind v t with
  | .ok new => ⟨[.bound v t], some new⟩
  | .error _ => ⟨[], none⟩

/-- Unifies an unbound variable with a term that has been followed to its end: nothing is to be done
if it is the same variable. -/
def unifyUnbound (env : Bindings) (v : Variable) : Term → Run
  | .var w => if w.id = v.id then .ok env else bindVariable env v (.var w)
  | t => bindVariable env v t

/-- Unifies pairs one after the other, with the given way to unify a pair; the first that fails ends
the run. -/
def unifyPairs (step : Bindings → Term → Term → Option Run) :
    Bindings → List (Term × Term) → Option Run
  | env, [] => some (.ok env)
  | env, (a, b) :: pairs =>
    match step env a b with
    | none => none
    | some ⟨events, none⟩ => some ⟨events, none⟩
    | some ⟨events, some env'⟩ => (unifyPairs step env' pairs).map (.after events)

/-- Unifies two terms, with at most so many steps inside one another; none if that is too few. -/
def unifyWithin : Nat → Bindings → Term → Term → Option Run
  | 0, _, _, _ => none
  | depth + 1, env, .var v, b =>
    match env.deref (.var v) with
    | .var w => some (unifyUnbound env w (env.deref b))
    | a => unifyWithin depth env a b
  | depth + 1, env, a, .var w => unifyWithin depth env (.var w) a
  | _ + 1, env, .atom a, .atom b =>
    some (if a = b then .ok env else .fail (.mismatch (.atom a) (.atom b)))
  | _ + 1, env, .num m, .num n =>
    some (if m.equal n then .ok env else .fail (.mismatch (.num m) (.num n)))
  | depth + 1, env, .compound f as, .compound g bs =>
    if f = g ∧ as.length = bs.length then unifyPairs (unifyWithin depth) env (as.zip bs)
    else some (.fail (.functorMismatch f as.length g bs.length))
  | _ + 1, _, a, b => some (.fail (.mismatch a b))

/-! ### Depth -/

mutual

/-- The number of subterms of a term. -/
def termSize : Term → Nat
  | .compound _ args => termSizeArgs args + 1
  | _ => 1

/-- The number of subterms of a list of terms. -/
def termSizeArgs : List Term → Nat
  | [] => 0
  | t :: ts => termSize t + termSizeArgs ts

end

/-- The number of places in the values of bindings. -/
def bindingsSize (env : Bindings) : Nat := termSizeArgs (env.values.entries.map Prod.snd)

/-- A depth that suffices for every run that ends.  All terms that a run meets are among the subterms
of the two terms and of the values, and variables are bound one at a time; so among more nested steps
than this, two are at the same terms under the same bindings. -/
def depthBound (env : Bindings) (a b : Term) : Nat :=
  (termSize a + termSize b + bindingsSize env + env.size + 1) ^ 3

/-- Unifies two terms; none if the run never ends. -/
def unify (env : Bindings) (a b : Term) : Option Run :=
  unifyWithin (depthBound env a b) env a b

/-! ### More depth -/

/-- If one way to unify a pair ends where another does, and as it does, so do the runs of pairs. -/
theorem unifyPairs_mono {step step' : Bindings → Term → Term → Option Run}
    (h : ∀ env a b r, step env a b = some r → step' env a b = some r) {env : Bindings}
    {pairs : List (Term × Term)} {r : Run} (hr : unifyPairs step env pairs = some r) :
    unifyPairs step' env pairs = some r := by
  induction pairs generalizing env r with
  | nil => exact hr
  | cons p pairs ih =>
    obtain ⟨a, b⟩ := p
    simp only [unifyPairs] at hr ⊢
    cases hs : step env a b with
    | none => simp only [hs, reduceCtorEq] at hr
    | some s =>
      rw [h env a b s hs]
      rw [hs] at hr
      obtain ⟨events, _ | env'⟩ := s
      · exact hr
      · obtain ⟨r', hr', rfl⟩ := Option.map_eq_some_iff.mp hr
        exact Option.map_eq_some_iff.mpr ⟨r', ih hr', rfl⟩

theorem unifyWithin_succ {depth : Nat} {env : Bindings} {a b : Term} {r : Run}
    (h : unifyWithin depth env a b = some r) : unifyWithin (depth + 1) env a b = some r := by
  induction depth generalizing env a b r with
  | zero => exact nomatch h
  | succ depth ih =>
    unfold unifyWithin at h ⊢
    split at h
    · rename_i hd
      exact nomatch hd
    · rename_i hd
      cases hd
      split at h <;> simp_all
    · rename_i hd _
      cases hd
      simp_all
    · exact h
    · exact h
    · rename_i hd
      cases hd
      split at h
      · rename_i hc
        rw [if_pos hc]
        exact unifyPairs_mono (fun _ _ _ _ => ih) h
      · rename_i hc
        rw [if_neg hc]
        exact h
    · simp_all

/-- More depth does not change the outcome of a run that has ended. -/
theorem unifyWithin_mono {depth depth' : Nat} (hd : depth ≤ depth') {env : Bindings} {a b : Term}
    {r : Run} (h : unifyWithin depth env a b = some r) : unifyWithin depth' env a b = some r := by
  induction hd with
  | refl => exact h
  | step _ ih => exact unifyWithin_succ ih

/-! ### Runs of pairs -/

/-- Pairs can be split anywhere: the second part is unified under the bindings of the first. -/
theorem unifyPairs_append (step : Bindings → Term → Term → Option Run) (env : Bindings)
    (ps qs : List (Term × Term)) :
    unifyPairs step env (ps ++ qs) =
      match unifyPairs step env ps with
      | some ⟨events, some env'⟩ => (unifyPairs step env' qs).map (.after events)
      | r => r := by
  induction ps generalizing env with
  | nil =>
    cases h : unifyPairs step env qs <;>
      simp [unifyPairs, Run.ok, Run.after, h]
  | cons p ps ih =>
    obtain ⟨a, b⟩ := p
    simp only [List.cons_append, unifyPairs]
    rcases step env a b with _ | ⟨events, _ | env'⟩
    · rfl
    · rfl
    · simp only [ih]
      rcases unifyPairs step env' ps with _ | ⟨events', _ | env''⟩
      · rfl
      · rfl
      · cases h : unifyPairs step env'' qs <;> simp [Run.after, h]

end LogicTerms.Unification
