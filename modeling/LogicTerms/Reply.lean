/-
**Replies of native predicates.**

A native predicate runs outside of the logic program.  It is given bindings and arguments, and
replies with success, with failure, with pairs of terms that are to be unified, or with an
exception.  To resolve a reply is to do what it says to the bindings.

Main definitions:

* `Reply` — what a native predicate says;
* `Reply.ofTerms` — terms that are to be unified two by two;
* `Reply.resolveTerms` — the loop that unifies them;
* `Reply.resolve` — the reply applied to bindings;
* `Predicate`, `Predicate.call` — a native predicate, and a call of it.

Main results:

* `Reply.pairs?_eq_none_iff` — exactly the odd numbers of terms form no pairs;
* `Reply.flatten_of_pairs?` — pairs hold the terms in their order.
-/

import LogicTerms.Unification

set_option relaxedAutoImplicit false
set_option autoImplicit false

namespace LogicTerms

/-- What a native predicate says. -/
inductive Reply where
  /-- It holds as things are. -/
  | success
  /-- It does not hold. -/
  | failure
  /-- It holds if the terms of every pair can be unified. -/
  | unify (pairs : List (Term × Term))
  /-- It raises an exception. -/
  | exception (message : String)

namespace Reply

/-! ### Pairs of terms -/

/-- Terms two by two; none if one is left over. -/
def pairs? : List Term → Option (List (Term × Term))
  | [] => some []
  | [_] => none
  | a :: b :: ts => (pairs? ts).map ((a, b) :: ·)

/-- The terms of pairs, in order. -/
def flatten (pairs : List (Term × Term)) : List Term := pairs.flatMap fun p => [p.1, p.2]

/-- Terms that are to be unified two by two; an odd number of them is a violation. -/
def ofTerms (terms : List Term) : Except Violation Reply :=
  match pairs? terms with
  | some pairs => .ok (unify pairs)
  | none => .error (.unevenUnify terms.length)

/-- Pairs hold the terms in their order. -/
theorem flatten_of_pairs? {terms : List Term} {pairs : List (Term × Term)}
    (h : pairs? terms = some pairs) : flatten pairs = terms := by
  fun_induction pairs? terms generalizing pairs with
  | case1 => exact Option.some.inj h ▸ rfl
  | case2 => exact nomatch h
  | case3 a b ts ih =>
    obtain ⟨ps, hps, rfl⟩ := Option.map_eq_some_iff.mp h
    change a :: b :: flatten ps = _
    rw [ih hps]

/-- Exactly the odd numbers of terms form no pairs. -/
theorem pairs?_eq_none_iff (terms : List Term) : pairs? terms = none ↔ terms.length % 2 = 1 := by
  fun_induction pairs? terms with
  | case1 => simp
  | case2 => simp
  | case3 a b ts ih =>
    rw [Option.map_eq_none_iff, ih]
    simp only [List.length_cons]
    omega

/-! ### Text and equality -/

/-- The text of a pair. -/
def pairText (p : Term × Term) : List Char := p.1.text ++ " = ".toList ++ p.2.text

/-- The text of a reply. -/
def text : Reply → List Char
  | success => "true".toList
  | failure => "fail".toList
  | unify pairs => "unify(".toList ++ ", ".toList.intercalate (pairs.map pairText) ++ [')']
  | exception message => "exception(".toList ++ message.toList ++ [')']

/-- The same reply, with equal terms. -/
def equal : Reply → Reply → Bool
  | success, success => true
  | failure, failure => true
  | unify ps, unify qs => Term.equalArgs (flatten ps) (flatten qs)
  | exception m, exception n => m == n
  | _, _ => false

/-! ### Resolution -/

/-- What has come of a reply: the record of its unifications, and the bindings of a success, nothing
for a failure, or the error of an exception. -/
structure Resolution where
  /-- The record, in order. -/
  events : List Unification.Event
  /-- The outcome. -/
  outcome : Except RunError (Option Bindings)

/-- The resolution with a record put in front of its own. -/
def Resolution.after (events : List Unification.Event) (s : Resolution) : Resolution :=
  ⟨events ++ s.events, s.outcome⟩

section Loop

variable (step : Bindings → Term → Term → Option Unification.Run)

/-- Unifies terms two by two, each two under the bindings that those before have left, with the
given way to unify.  The first two that cannot be unified end the loop, and a single term at the end
is not looked at; none if one of the unifications never ends. -/
def resolveTerms : Bindings → List Term → Option Resolution
  | env, left :: right :: terms =>
    match step env left right with
    | none => none
    | some ⟨events, none⟩ => some ⟨events, .ok none⟩
    | some ⟨events, some next⟩ => (resolveTerms next terms).map (.after events)
  | env, _ => some ⟨[], .ok (some env)⟩

/-- Applies a reply to bindings, with the given way to unify two terms. -/
def resolveWith (env : Bindings) : Reply → Option Resolution
  | success => some ⟨[], .ok (some env)⟩
  | failure => some ⟨[], .ok none⟩
  | unify pairs => resolveTerms step env (flatten pairs)
  | exception message => some ⟨[], .error (.exception message)⟩

end Loop

/-- Applies a reply to bindings; none if a unification never ends. -/
def resolve (env : Bindings) (r : Reply) : Option Resolution :=
  r.resolveWith Unification.unify env

end Reply

/-! ### Predicates -/

/-- A native predicate. -/
abbrev Predicate := Bindings → List Term → Except Violation Reply

namespace Predicate

/-- A call of a native predicate: its reply, and what has come of it. -/
structure Call where
  /-- What the predicate said. -/
  reply : Reply
  /-- What has come of it; none if that never ends. -/
  resolution : Option Reply.Resolution

/-- Calls a predicate and applies its reply. -/
def call (p : Predicate) (env : Bindings) (args : List Term) : Except Violation Call :=
  (p env args).map fun r => ⟨r, r.resolve env⟩

end Predicate

end LogicTerms
