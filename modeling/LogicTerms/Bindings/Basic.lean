/-
**Bindings.**

Bindings give values to variables.  A value is never changed: binding a variable makes new bindings,
and a variable that has a value cannot be given another.  A value may be a variable, bound or not;
following such values leads to what a variable stands for.

Bindings also carry the names under which the variables of a query are asked for.

Main definitions:

* `Bindings` — the values of variables, and named variables;
* `Bindings.bind` — one more binding;
* `Bindings.resolve?`, `Bindings.deref` — what a variable, or any term, stands for;
* `Bindings.withNames` — named variables of a query;
* `Bindings.same` — the same values and names.

Main results:

* `Bindings.bind_eq_error_iff` — exactly the bound variables cannot be bound;
* `Bindings.size_bind` — a binding adds one to the size.
-/

import LogicTerms.Dictionary
import LogicTerms.Error
import LogicTerms.Term.Text

set_option relaxedAutoImplicit false
set_option autoImplicit false

namespace LogicTerms

/-- The values of variables by their ids, and the variables of a query by their names. -/
structure Bindings where
  /-- The values of bound variables. -/
  values : Dictionary UInt64 Term
  /-- The named variables. -/
  names : Dictionary String Variable

namespace Bindings

/-- No variable is bound or named. -/
def empty : Bindings := ⟨.empty, .empty⟩

/-- The term that the variable was bound to. -/
def find? (env : Bindings) (v : Variable) : Option Term := env.values.find? v.id

/-- The variable has been bound. -/
def isBound (env : Bindings) (v : Variable) : Bool := (env.find? v).isSome

/-- The number of bound variables. -/
def size (env : Bindings) : Nat := env.values.size

/-- No variable is bound. -/
def isEmpty (env : Bindings) : Bool := env.size == 0

/-! ### Binding -/

/-- The bindings with one more, whether or not the variable was bound. -/
def assign (env : Bindings) (v : Variable) (t : Term) : Bindings :=
  { env with values := env.values.insert v.id t }

/-- The bindings with one more; an error if the variable has a value, even the same one. -/
def bind (env : Bindings) (v : Variable) (t : Term) : Except RunError Bindings :=
  if env.isBound v then .error (.alreadyBound (String.ofList v.text)) else .ok (env.assign v t)

/-- Exactly the bound variables cannot be bound. -/
theorem bind_eq_error_iff (env : Bindings) (v : Variable) (t : Term) :
    (∃ e, env.bind v t = .error e) ↔ env.isBound v = true := by
  unfold bind
  split <;> simp_all

/-- A binding adds one to the size. -/
theorem size_bind {env new : Bindings} {v : Variable} {t : Term} (h : env.bind v t = .ok new) :
    new.size = env.size + 1 := by
  unfold bind at h
  split at h
  · exact nomatch h
  · rename_i hb
    have hn : env.values.find? v.id = none := by
      simpa only [isBound, find?, Option.isSome_iff_ne_none, ne_eq, Decidable.not_not] using hb
    cases h
    exact env.values.size_insert t hn

/-! ### Following variables -/

/-- What a term stands for, after at most so many bindings of variables. -/
def follow (env : Bindings) : Nat → Term → Term
  | steps + 1, .var v =>
    match env.find? v with
    | some t => env.follow steps t
    | none => .var v
  | _, t => t

/-- What a bound variable stands for: the first term on its way that is no bound variable.  Without
a circle of variables no binding is used twice on the way, so that it has at most `size` steps. -/
def resolve? (env : Bindings) (v : Variable) : Option Term :=
  (env.find? v).map (env.follow env.size)

/-- What a term stands for: itself, unless it is a bound variable. -/
def deref (env : Bindings) : Term → Term
  | .var v => (env.resolve? v).getD (.var v)
  | t => t

/-! ### Names -/

/-- The bindings in which the variables can be asked for by their names; of two with one name the
later counts. -/
def withNames (env : Bindings) (vars : List Variable) : Bindings :=
  { env with names := vars.foldl (fun names v => names.insert v.name v) env.names }

/-- The named variables in the order of their names. -/
def sortedNames (env : Bindings) : List (String × Variable) :=
  env.names.sorted fun a b => (compare a b).isLE

/-- The same values, and the same variables under the same names. -/
def same (env env' : Bindings) : Bool :=
  env.values.same Term.equal env'.values && env.names.same (·.id == ·.id) env'.names

end Bindings

end LogicTerms
