/-
**The log.**

What happens in a run is logged as lines.  Bindings, mismatches and the replies of native predicates
are details, logged only while debugging is on; a violation is logged always.

Main definitions:

* `Log.isDebugging` — whether debugging is on under a setting;
* `Log.Entry` — something that can be logged;
* `Log.lines` — the lines of the entries that are logged.
-/

import LogicTerms.Reply

set_option relaxedAutoImplicit false
set_option autoImplicit false

namespace LogicTerms.Log

/-- Debugging is on if the setting is there and not empty. -/
def isDebugging (setting : Option String) : Bool := setting.any fun s => !s.isEmpty

/-- Something that can be logged. -/
inductive Entry where
  /-- A binding or a mismatch. -/
  | unification (event : Unification.Event)
  /-- What a native predicate said. -/
  | replied (reply : Reply)
  /-- A broken promise. -/
  | violated (violation : Violation)

/-- A detail, of use only to someone who is looking for a fault. -/
def Entry.isDetail : Entry → Bool
  | violated _ => false
  | _ => true

/-- A functor with the number of its arguments. -/
def indicatorText (functor : String) (arity : Nat) : List Char :=
  Term.quoteName functor.toList ++ '/' :: decimalDigits arity

/-- The text of an event of unification. -/
def eventText : Unification.Event → List Char
  | .bound v t =>
    "bind ".toList ++ v.text ++ " (#".toList ++ decimalDigits v.id.toNat ++ ") = ".toList ++ t.text
  | .mismatch a b => "can't unify ".toList ++ a.text ++ " with ".toList ++ b.text
  | .functorMismatch f m g n =>
    "can't unify ".toList ++ indicatorText f m ++ " with ".toList ++ indicatorText g n

/-- The line of an event of unification. -/
def eventLine (event : Unification.Event) : String := "DEBUG " ++ String.ofList (eventText event)

/-- The line of an entry, behind its level.  That of a violation may quote a text, in the given
repertoire. -/
def Entry.line (chars : Text.Repertoire) : Entry → String
  | unification event => eventLine event
  | replied reply => "DEBUG foreign call returned " ++ String.ofList reply.text
  | violated violation => "ERROR fatal contract violation err=" ++ violation.message chars

/-- The lines that are logged, in order. -/
def lines (chars : Text.Repertoire) (debugging : Bool) (entries : List Entry) : List String :=
  (entries.filter fun e => debugging || !e.isDetail).map (Entry.line chars)

end LogicTerms.Log
