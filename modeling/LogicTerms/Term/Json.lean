/-
**Terms as JSON.**

A term is an object with the one member `value`, and that an object whose only member is named for
the type of the term.  Members that are not part of a term are passed over when it is read; those
that are have to be there once.

Main definitions:

* `Variable.toJson`, `Variable.ofJson?` — a variable;
* `Term.toJson`, `Term.ofJson?` — a term;
* `Term.Kind.toJson` — the type of a term.
-/

import LogicTerms.Number.Json
import LogicTerms.Term.Basic

set_option relaxedAutoImplicit false
set_option autoImplicit false

namespace LogicTerms

/-- A variable. -/
def Variable.toJson (v : Variable) : Json :=
  .object [("name", .string v.name), ("id", .ofNat v.id.toNat)]

/-- A variable, whose id fits 64 bits. -/
def Variable.ofJson? (j : Json) : Option Variable := do
  let name ← (← j.member? "name").string?
  let id ← (← j.member? "id").below? (2 ^ 64)
  some ⟨name, UInt64.ofNat id⟩

namespace Term

/-- The type of a term. -/
def Kind.toJson (k : Kind) : Json := .string k.name

mutual

/-- A term. -/
def toJson : Term → Json
  | var v => .tagged "value" (.tagged "Variable" v.toJson)
  | atom a => .tagged "value" (.tagged "Atom" (.string a))
  | num n => .tagged "value" (.tagged "Number" n.toJson)
  | compound f args =>
    .tagged "value" (.tagged "Compound"
      (.object [("functor", .string f), ("args", .array (toJsonArgs args))]))

/-- A list of terms. -/
def toJsonArgs : List Term → List Json
  | [] => []
  | t :: ts => toJson t :: toJsonArgs ts

end

@[simp] theorem toJsonArgs_eq_map (ts : List Term) : toJsonArgs ts = ts.map toJson := by
  induction ts with
  | nil => rfl
  | cons t ts ih => rw [toJsonArgs, List.map_cons, ih]

/-- A term, nested in others at most so deep. -/
def ofJsonWithin? : Nat → Json → Option Term
  | 0, _ => none
  | depth + 1, j => do
    match ← (← j.member? "value").untag? with
    | ("Variable", j) => (Variable.ofJson? j).map var
    | ("Atom", j) => j.string?.map atom
    | ("Number", j) => (Number.ofJson? j).map num
    | ("Compound", j) =>
      let f ← (← j.member? "functor").string?
      let args ← (← (← j.member? "args").items?).mapM (ofJsonWithin? depth)
      some (compound f args)
    | _ => none

/-- A term. -/
def ofJson? (j : Json) : Option Term := ofJsonWithin? j.depth j

end Term

end LogicTerms
