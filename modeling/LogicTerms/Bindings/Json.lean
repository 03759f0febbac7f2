/-
**Bindings as JSON.**

Bindings are an object of two objects: the values under the ids of their variables, and the named
variables under their names.  Only the names have an order: the values are written in whatever order
they are listed, so that bindings have as many texts as there are orders of their values.  When they
are read, the last of several values or variables under one id or name counts.

Main definitions:

* `Bindings.toJson`, `Bindings.ofJson?` — bindings.
-/

import LogicTerms.Bindings.Basic
import LogicTerms.Json.Reader
import LogicTerms.Term.Json

set_option relaxedAutoImplicit false
set_option autoImplicit false

namespace LogicTerms.Bindings

/-- An id as the name of a member. -/
def idName (id : UInt64) : String := id.toNat.repr

/-- The id that names a member: a whole number that is written as one in JSON, and fits 64 bits. -/
def idOfName? (name : String) : Option UInt64 :=
  match Json.readNumber name.toList with
  | some (j, []) => (j.below? (2 ^ 64)).map UInt64.ofNat
  | _ => none

/-- Bindings, with their values as they are listed and the named variables in the order of their
names. -/
def toJson (env : Bindings) (values : env.values.Listing) : Json :=
  .object
    [("values", .object (values.entries.map fun e => (idName e.1, e.2.toJson))),
     ("names", .object (env.sortedNames.map fun e => (e.1, e.2.toJson)))]

/-- Bindings. -/
def ofJson? (j : Json) : Option Bindings := do
  let values ← (← (← j.member? "values").members?).mapM fun m => do
    some (← idOfName? m.1, ← Term.ofJson? m.2)
  let names ← (← (← j.member? "names").members?).mapM fun m => do
    some (m.1, ← Variable.ofJson? m.2)
  some ⟨.ofList values, .ofList names⟩

end LogicTerms.Bindings
