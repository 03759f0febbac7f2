/-
**Aborts.**

A violation ends the call in which it happens: the call does not return, but ends with a text.
Before that the violation is logged, and a hook is run, if one is installed.  The hook may end the
call itself, with a text of its own.  Neither changes which hook is installed.

A hook is code of someone else, and whether it ends a call is up to it: it may depend on the
violation and on anything that has happened before.  So runs are given what hooks do, command by
command.  A message may quote a text, so they are also given the repertoire of characters in which
messages are written.

Main definitions:

* `Hook`, `Hook.Behaviour` — an observer of violations, and what observers do;
* `Abort`, `Violation.abortWith` — what a violation does, and the text that the call ends with;
* `Abort.Command`, `Abort.stepWith`, `Abort.runWith` — calls among which hooks are installed and
  taken away.

Main results:

* `Abort.stepWith_hook` — only installing and taking change the hook;
* `Abort.runWith_append` — commands can be split anywhere.
-/

import LogicTerms.Literal.Integer
import LogicTerms.Log

set_option relaxedAutoImplicit false
set_option autoImplicit false

namespace LogicTerms

/-! ### The end of a call -/

/-- An observer of violations. -/
structure Hook where
  /-- What tells it from other hooks. -/
  tag : String
  deriving DecidableEq

/-- Something that happens while a violation ends a call. -/
inductive Effect where
  /-- The violation is logged. -/
  | logged (violation : Violation)
  /-- The hook is run on the violation. -/
  | observed (hook : Hook) (violation : Violation)
  deriving DecidableEq

/-- The end of a call. -/
structure Abort where
  /-- What happens before the call ends, in order. -/
  effects : List Effect
  /-- The text that the call ends with. -/
  text : String
  deriving DecidableEq

/-- What hooks do when they are run on a violation: the text with which a hook ends the call itself,
if it does. -/
abbrev Hook.Behaviour := Hook → Violation → Option String

/-- Ends a call, under the hook that is installed: the text is that of the hook, if it ends the call
itself, and otherwise that of the violation. -/
def Violation.abortWith (chars : Text.Repertoire) (behaviour : Hook.Behaviour) (v : Violation)
    (hook : Option Hook) : Abort where
  effects := .logged v :: hook.toList.map fun h => .observed h v
  text := (hook.bind fun h => behaviour h v).getD (v.message chars)

namespace Abort

variable (chars : Text.Repertoire)

/-! ### Runs of commands -/

/-- Something that is done while a hook may be installed. -/
inductive Command where
  /-- Installs a hook in the place of any other. -/
  | setHook (hook : Hook)
  /-- Takes the hook away. -/
  | takeHook
  /-- Reads an integer literal. -/
  | readInteger (token : String)
  /-- Asks for terms to be unified two by two. -/
  | unify (terms : List Term)
  /-- Reports a violation. -/
  | violate (violation : Violation)

/-- What a command says. -/
inductive Answer where
  /-- The hook is installed. -/
  | installed
  /-- The hook that was there is taken away. -/
  | taken (hook : Option Hook)
  /-- The number of a literal. -/
  | number (n : Number)
  /-- The data were at fault. -/
  | error (e : Error)
  /-- The reply that was asked for. -/
  | reply (r : Reply)
  /-- The command did not return, but ended with a text. -/
  | aborted (text : String)

/-- A command carried out. -/
structure Step where
  /-- The hook that is installed afterwards. -/
  hook : Option Hook
  /-- What happened meanwhile. -/
  effects : List Effect
  /-- What the command says. -/
  answer : Answer

/-- A command that a violation ends. -/
def stopWith (behaviour : Hook.Behaviour) (hook : Option Hook) (v : Violation) : Step :=
  let a := v.abortWith chars behaviour hook
  ⟨hook, a.effects, .aborted a.text⟩

/-- Carries out a command under the hook that is installed. -/
def stepWith (behaviour : Hook.Behaviour) (hook : Option Hook) : Command → Step
  | .setHook new => ⟨some new, [], .installed⟩
  | .takeHook => ⟨none, [], .taken hook⟩
  | .readInteger token =>
    match Literal.readInteger token with
    | .ok n => ⟨hook, [], .number n⟩
    | .error (.error e) => ⟨hook, [], .error e⟩
    | .error (.violation v) => stopWith chars behaviour hook v
  | .unify terms =>
    match Reply.ofTerms terms with
    | .ok r => ⟨hook, [], .reply r⟩
    | .error v => stopWith chars behaviour hook v
  | .violate v => stopWith chars behaviour hook v

/-- Carries out commands one after the other, with what hooks do during each of them. -/
def runWith (behaviours : Nat → Hook.Behaviour) (hook : Option Hook) : List Command → List Step
  | [] => []
  | c :: cs =>
    let s := stepWith chars (behaviours 0) hook c
    s :: runWith (fun n => behaviours (n + 1)) s.hook cs

/-- The hook that is installed after a command. -/
def hookAfterOne (hook : Option Hook) : Command → Option Hook
  | .setHook new => some new
  | .takeHook => none
  | _ => hook

/-- The hook that is installed after commands. -/
def hookAfter (hook : Option Hook) (cs : List Command) : Option Hook := cs.foldl hookAfterOne hook

/-- Only installing and taking change the hook. -/
@[simp] theorem stepWith_hook (behaviour : Hook.Behaviour) (hook : Option Hook) (c : Command) :
    (stepWith chars behaviour hook c).hook = hookAfterOne hook c := by
  cases c with
  | setHook new => rfl
  | takeHook => rfl
  | readInteger token => simp only [stepWith]; split <;> rfl
  | unify terms => simp only [stepWith]; split <;> rfl
  | violate v => rfl

@[simp] theorem length_runWith (behaviours : Nat → Hook.Behaviour) (hook : Option Hook)
    (cs : List Command) : (runWith chars behaviours hook cs).length = cs.length := by
  induction cs generalizing behaviours hook with
  | nil => rfl
  | cons c cs ih => simp only [runWith, List.length_cons, ih]

/-- Commands can be split anywhere. -/
theorem runWith_append (behaviours : Nat → Hook.Behaviour) (hook : Option Hook)
    (cs ds : List Command) :
    runWith chars behaviours hook (cs ++ ds) = runWith chars behaviours hook cs ++
      runWith chars (fun n => behaviours (n + cs.length)) (hookAfter hook cs) ds := by
  induction cs generalizing behaviours hook with
  | nil => rfl
  | cons c cs ih =>
    simp only [List.cons_append, runWith, hookAfter, List.foldl_cons, stepWith_hook, ih,
      List.length_cons, Nat.add_assoc]

/-! ### Effects -/

/-- What an effect leaves in the log. -/
def logged? : Effect → Option Log.Entry
  | .logged v => some (.violated v)
  | .observed _ _ => none

end Abort

end LogicTerms
