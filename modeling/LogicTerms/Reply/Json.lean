/-
**Replies as JSON.**

A reply without contents is its name; the others are objects whose only member has that name.

Main definitions:

* `Reply.toJson` — a reply.
-/

import LogicTerms.Reply
import LogicTerms.Term.Json

set_option relaxedAutoImplicit false
set_option autoImplicit false

namespace LogicTerms.Reply

/-- A reply; pairs are written one term after the other. -/
def toJson : Reply → Json
  | success => .string "True"
  | failure => .string "Fail"
  | unify pairs => .tagged "Unify" (.array ((flatten pairs).map Term.toJson))
  | exception message => .tagged "Exception" (.string message)

end LogicTerms.Reply
