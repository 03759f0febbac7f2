/-
**What can go wrong.**

An operation fails in one of two ways.  An *error* is a fault of the data: a numeric literal that
cannot be read, or a step of a logic program that cannot be taken.  A *violation* is a fault of a
caller, which no data can excuse: it breaks a promise on which the operation relies.

A message may quote a text that it is about, in the repertoire of characters that messages are
written in.

Main definitions:

* `LiteralError`, `RunError`, `Error` — the faults of data, with their messages;
* `Violation` — the broken promises, with their messages;
* `Failure` — either.
-/

import LogicTerms.Text.Escaped

set_option relaxedAutoImplicit false
set_option autoImplicit false

namespace LogicTerms

/-! ### Errors -/

/-- Why a numeric literal cannot be read; each names the whole literal. -/
inductive LiteralError where
  /-- Digits are followed by something else. -/
  | invalidInteger (token : String)
  /-- A character code names no character, or more than one. -/
  | invalidCharacter (token : String)
  /-- A character code has an unknown or unfinished escape. -/
  | invalidEscape (token : String)
  /-- No notation of a fraction or a double. -/
  | invalidFloat (token : String)
  deriving DecidableEq

/-- Why a step of a logic program cannot be taken. -/
inductive RunError where
  /-- The variable has a value already. -/
  | alreadyBound (name : String)
  /-- A predicate raised an exception. -/
  | exception (message : String)
  /-- A term is of another type than its place asks for. -/
  | typeError (message : String)
  deriving DecidableEq

/-- A fault of the data. -/
inductive Error where
  /-- In the text of a literal. -/
  | literal (error : LiteralError)
  /-- In a step of a run. -/
  | run (error : RunError)
  deriving DecidableEq

section Messages

variable (chars : Text.Repertoire)

/-- A text as a message quotes it. -/
def quoted (token : String) : String := String.ofList (Text.escape chars token.toList)

/-- The message of a literal error. -/
def LiteralError.message : LiteralError → String
  | invalidInteger token => "invalid integer: " ++ quoted chars token
  | invalidCharacter token => "invalid integer character constant: " ++ quoted chars token
  | invalidEscape token => "invalid character escape sequence: " ++ quoted chars token
  | invalidFloat token => quoted chars token ++ " was parsed as a float, but is invalid"

/-- The message of a run error. -/
def RunError.message : RunError → String
  | alreadyBound name => name ++ " is already bound"
  | exception message => message
  | typeError message => "Type error: " ++ message

/-- The message of an error. -/
def Error.message : Error → String
  | literal e => e.message chars
  | run e => e.message

end Messages

namespace Error

/-- Arises in the text of a literal. -/
def isLiteral : Error → Bool
  | literal _ => true
  | run _ => false

/-- Arises in a step of a run. -/
def isRun : Error → Bool
  | literal _ => false
  | run _ => true

end Error

/-- The message of a unification that did not succeed. -/
def cantUnifyMessage : String := "can't unify"

/-! ### Violations -/

/-- A promise that a caller broke. -/
inductive Violation where
  /-- An integer literal is never empty. -/
  | emptyInteger
  /-- An integer literal has a digit of its radix where its digits start. -/
  | noDigits (token : String) (radix : Nat)
  /-- Terms to be unified in pairs are even in number. -/
  | unevenUnify (count : Nat)
  deriving DecidableEq

/-- The message of a violation. -/
def Violation.message (chars : Text.Repertoire) : Violation → String
  | emptyInteger => "Empty string is not a valid integer"
  | noDigits token radix =>
    "Parsed no integers: " ++ quoted chars token ++ " has no base " ++ radix.repr ++ " digits"
  | unevenUnify count => "Uneven number of arguments to ForeignUnify: " ++ count.repr

/-! ### Either -/

/-- Why an operation has no result. -/
inductive Failure where
  /-- The data are at fault. -/
  | error (error : Error)
  /-- The caller is at fault. -/
  | violation (violation : Violation)
  deriving DecidableEq

namespace Failure

/-- A literal is at fault. -/
def ofLiteral (e : LiteralError) : Failure := error (.literal e)

/-- A step of a run is at fault. -/
def ofRun (e : RunError) : Failure := error (.run e)

end Failure

end LogicTerms
