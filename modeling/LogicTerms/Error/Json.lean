/-
**Errors as JSON.**

An error is an object with the one member `kind`, and in it, one inside the other, two objects of a
single member: the first names the sort of error, the second the error, and holds its text under a
name of its own.

Main definitions:

* `Error.toJson`, `Error.ofJson?` — an error;
* `cantUnifyToJson` — a unification that did not succeed.
-/

import LogicTerms.Error
import LogicTerms.Json.Basic

set_option relaxedAutoImplicit false
set_option autoImplicit false

namespace LogicTerms

/-- A literal error. -/
def LiteralError.toJson : LiteralError → Json
  | invalidInteger token => .tagged "InvalidInteger" (.tagged "token" (.string token))
  | invalidCharacter token => .tagged "InvalidCharacterConstant" (.tagged "token" (.string token))
  | invalidEscape token => .tagged "InvalidEscape" (.tagged "token" (.string token))
  | invalidFloat token => .tagged "InvalidFloat" (.tagged "token" (.string token))

/-- A run error. -/
def RunError.toJson : RunError → Json
  | alreadyBound name => .tagged "AlreadyBound" (.tagged "var" (.string name))
  | exception message => .tagged "Exception" (.tagged "msg" (.string message))
  | typeError message => .tagged "TypeError" (.tagged "msg" (.string message))

/-- An error. -/
def Error.toJson : Error → Json
  | literal e => .tagged "kind" (.tagged "Parse" e.toJson)
  | run e => .tagged "kind" (.tagged "Runtime" e.toJson)

/-- The text that an error holds under a name. -/
def Error.textMember? (name : String) (j : Json) : Option String :=
  (j.member? name).bind Json.string?

/-- A literal error. -/
def LiteralError.ofJson? (j : Json) : Option LiteralError := do
  match ← j.untag? with
  | ("InvalidInteger", j) => (Error.textMember? "token" j).map invalidInteger
  | ("InvalidCharacterConstant", j) => (Error.textMember? "token" j).map invalidCharacter
  | ("InvalidEscape", j) => (Error.textMember? "token" j).map invalidEscape
  | ("InvalidFloat", j) => (Error.textMember? "token" j).map invalidFloat
  | _ => none

/-- A run error. -/
def RunError.ofJson? (j : Json) : Option RunError := do
  match ← j.untag? with
  | ("AlreadyBound", j) => (Error.textMember? "var" j).map alreadyBound
  | ("Exception", j) => (Error.textMember? "msg" j).map exception
  | ("TypeError", j) => (Error.textMember? "msg" j).map typeError
  | _ => none

/-- An error. -/
def Error.ofJson? (j : Json) : Option Error := do
  match ← (← j.member? "kind").untag? with
  | ("Parse", j) => (LiteralError.ofJson? j).map literal
  | ("Runtime", j) => (RunError.ofJson? j).map run
  | _ => none

/-- A unification that did not succeed has nothing to say. -/
def cantUnifyToJson : Json := .null

end LogicTerms
