/-
**Violations in a history.**

Which hook runs at a violation is decided by the history alone: by the commands before it that
install a hook or take one away.  Whatever else has happened, however many calls have been ended and
by whichever hook, does not matter.

Hooks are free to do what they like: each time a hook is run, it may return, or end the call with a
text that depends on the violation and on the place in the history.  So the theorem is about runs
with any behaviour of hooks at any command.  And a message may quote a text, so it is about messages
in any repertoire of characters.

Main definitions:

* `Abort.Command.Breaks` — a command that breaks a promise, said of texts and numbers of terms;
* `Abort.Installs`, `Abort.HasSetSinceTaken` — what a history says of hooks;
* `Abort.Protocol` — **what a command does** that is carried out under a hook.

Main results:

* `Abort.hookAfter_eq_some_iff` — the hook that was installed last and has not been taken away;
* `Abort.stepWith_of_breaks`, `Abort.effects_stepWith_of_not_breaks` — the two kinds of commands;
* `Abort.protocol_stepWith` — one command;
* `Abort.runWith_follows_protocol` — **every command of every history**.
-/

import LogicTerms.Abort
import LogicTerms.Proofs.Literal.Integer

set_option relaxedAutoImplicit false
set_option autoImplicit false

namespace LogicTerms

namespace Abort

/-! ### Broken promises -/

/-- The command breaks a promise. -/
inductive Command.Breaks : Command → Violation → Prop
  /-- The literal is empty. -/
  | empty : Breaks (.readInteger "") .emptyInteger
  /-- No digit of the radix is behind its mark. -/
  | markedNoDigits (m : RadixMark) {token : String} {cs : List Char} :
      Literal.Opens token m.letter cs → ¬ Literal.StartsWithDigit m.radix cs →
      Breaks (.readInteger token) (.noDigits token m.radix)
  /-- No mark is there, and no decimal digit behind the optional sign. -/
  | noDigits {token : String} : token ≠ "" → ¬ Literal.IsOpened token →
      (∀ (s : Sign) (cs : List Char), token.toList = s.text ++ cs →
        ¬ Literal.StartsWithDigit 10 cs) →
      Breaks (.readInteger token) (.noDigits token 10)
  /-- A term is left over. -/
  | uneven {terms : List Term} : Odd terms.length →
      Breaks (.unify terms) (.unevenUnify terms.length)
  /-- The violation is reported as such. -/
  | reported (v : Violation) : Breaks (.violate v) v

theorem breaks_readInteger_iff {token : String} {v : Violation} :
    (Command.readInteger token).Breaks v ↔ Literal.readInteger token = .error (.violation v) := by
  rw [Literal.readInteger_eq_iff]
  constructor
  · intro h
    cases h with
    | empty => exact .empty rfl
    | markedNoDigits m hopens hdigit => exact .markedNoDigits m hopens hdigit
    | noDigits hne hopened hdigit =>
        exact .noDigits (fun hnil => hne (String.toList_eq_nil_iff.1 hnil)) hopened hdigit
  · intro h
    cases h with
    | empty hnil => exact String.toList_eq_nil_iff.1 hnil ▸ .empty
    | markedNoDigits m hopens hdigit => exact .markedNoDigits m hopens hdigit
    | noDigits hne hopened hdigit =>
        exact .noDigits (fun hnil => hne (String.toList_eq_nil_iff.2 hnil)) hopened hdigit

theorem breaks_unify_iff {terms : List Term} {v : Violation} :
    (Command.unify terms).Breaks v ↔ Reply.ofTerms terms = .error v := by
  constructor
  · intro h
    cases h with
    | uneven hodd => rw [Reply.ofTerms, (Reply.pairs?_eq_none_iff terms).2 (Nat.odd_iff.1 hodd)]
  · intro h
    cases hpairs : Reply.pairs? terms with
    | none =>
        rw [Reply.ofTerms, hpairs] at h
        cases h
        exact .uneven (Nat.odd_iff.2 ((Reply.pairs?_eq_none_iff terms).1 hpairs))
    | some pairs =>
        rw [Reply.ofTerms, hpairs] at h
        cases h

/-! ### The hook of a history -/

/-- The command leaves hooks alone. -/
def Command.IsNeutral (c : Command) : Prop := (∀ h, c ≠ .setHook h) ∧ c ≠ .takeHook

/-- The hook was installed, and since then none was installed or taken away. -/
def Installs (history : List Command) (h : Hook) : Prop :=
  ∃ before since, history = before ++ .setHook h :: since ∧ ∀ c ∈ since, c.IsNeutral

/-- A hook was installed, and since then none was taken away. -/
def HasSetSinceTaken (history : List Command) : Prop :=
  ∃ h before since, history = before ++ .setHook h :: since ∧ .takeHook ∉ since

theorem Command.isNeutral_or (c : Command) :
    (∃ h, c = .setHook h) ∨ c = .takeHook ∨ c.IsNeutral := by
  by_cases hset : ∃ h, c = .setHook h
  · exact .inl hset
  by_cases htake : c = .takeHook
  · exact .inr (.inl htake)
  · exact .inr (.inr ⟨not_exists.1 hset, htake⟩)

theorem hookAfterOne_of_isNeutral {c : Command} (h : c.IsNeutral) (hook : Option Hook) :
    hookAfterOne hook c = hook := by
  cases c with
  | setHook new => exact absurd rfl (h.1 new)
  | takeHook => exact absurd rfl h.2
  | readInteger token => rfl
  | unify terms => rfl
  | violate v => rfl

theorem hookAfter_append (hook : Option Hook) (cs ds : List Command) :
    hookAfter hook (cs ++ ds) = hookAfter (hookAfter hook cs) ds :=
  List.foldl_append

theorem hookAfter_of_forall_isNeutral {cs : List Command} (h : ∀ c ∈ cs, c.IsNeutral)
    (hook : Option Hook) : hookAfter hook cs = hook := by
  induction cs generalizing hook with
  | nil => rfl
  | cons c cs ih =>
      rw [hookAfter, List.foldl_cons, hookAfterOne_of_isNeutral (h c List.mem_cons_self)]
      exact ih (fun d hd => h d (List.mem_cons_of_mem c hd)) hook

/-- Neutral commands do not change what is installed. -/
theorem Installs.concat {history : List Command} {h : Hook} {c : Command}
    (hinstalls : Installs history h) (hc : c.IsNeutral) : Installs (history ++ [c]) h := by
  obtain ⟨before, since, rfl, hsince⟩ := hinstalls
  refine ⟨before, since ++ [c], by simp, ?_⟩
  intro d hd
  rcases List.mem_append.1 hd with hd | hd
  · exact hsince d hd
  · exact List.mem_singleton.1 hd ▸ hc

/-- **The hook that is installed** is the one that was installed last and has not been taken away
since. -/
theorem hookAfter_eq_some_iff (history : List Command) (h : Hook) :
    hookAfter none history = some h ↔ Installs history h := by
  constructor
  · intro hafter
    -- The last command has either installed the hook or left it alone.
    induction history using List.reverseRecOn with
    | nil => cases hafter
    | append_singleton cs c ih =>
        rw [hookAfter_append] at hafter
        rcases c.isNeutral_or with ⟨new, rfl⟩ | rfl | hc
        · cases hafter
          exact ⟨cs, [], rfl, by simp⟩
        · cases hafter
        · exact (ih ((hookAfterOne_of_isNeutral hc _).symm.trans hafter)).concat hc
  · rintro ⟨before, since, rfl, hsince⟩
    rw [hookAfter_append]
    exact hookAfter_of_forall_isNeutral hsince (some h)

/-- A hook stays as long as none is taken away, though perhaps not the same. -/
theorem hookAfter_isSome {cs : List Command} (h : .takeHook ∉ cs) {hook : Option Hook}
    (hhook : hook.isSome) : (hookAfter hook cs).isSome := by
  induction cs generalizing hook with
  | nil => exact hhook
  | cons c cs ih =>
      refine ih (fun hmem => h (List.mem_cons_of_mem c hmem)) ?_
      rcases c.isNeutral_or with ⟨new, rfl⟩ | rfl | hc
      · rfl
      · exact absurd List.mem_cons_self h
      · rwa [hookAfterOne_of_isNeutral hc]

/-- A hook is installed exactly if one was installed since one was last taken away. -/
theorem hookAfter_isSome_iff (history : List Command) :
    (hookAfter none history).isSome ↔ HasSetSinceTaken history := by
  constructor
  · intro h
    obtain ⟨hook, hhook⟩ := Option.isSome_iff_exists.1 h
    obtain ⟨before, since, rfl, hsince⟩ := (hookAfter_eq_some_iff history hook).1 hhook
    exact ⟨hook, before, since, rfl, fun hmem => (hsince _ hmem).2 rfl⟩
  · rintro ⟨h, before, since, rfl, hsince⟩
    rw [hookAfter_append]
    exact hookAfter_isSome hsince rfl

/-! ### One command -/

variable (chars : Text.Repertoire)

/-- A command that breaks a promise is ended. -/
theorem stepWith_of_breaks {c : Command} {v : Violation} (h : c.Breaks v)
    (behaviour : Hook.Behaviour) (hook : Option Hook) :
    stepWith chars behaviour hook c = stopWith chars behaviour hook v := by
  cases c with
  | setHook new => cases h
  | takeHook => cases h
  | readInteger token => rw [stepWith, breaks_readInteger_iff.1 h]
  | unify terms => rw [stepWith, breaks_unify_iff.1 h]
  | violate w =>
      cases h
      rfl

/-- Every other command returns, without any effect. -/
theorem effects_stepWith_of_not_breaks {c : Command} (h : ∀ v, ¬ c.Breaks v)
    (behaviour : Hook.Behaviour) (hook : Option Hook) :
    (stepWith chars behaviour hook c).effects = [] ∧
      ∀ text, (stepWith chars behaviour hook c).answer ≠ .aborted text := by
  cases c with
  | setHook new => exact ⟨rfl, fun _ => Answer.noConfusion⟩
  | takeHook => exact ⟨rfl, fun _ => Answer.noConfusion⟩
  | readInteger token =>
      rw [stepWith]
      split
      · exact ⟨rfl, fun _ => Answer.noConfusion⟩
      · exact ⟨rfl, fun _ => Answer.noConfusion⟩
      · rename_i v hread
        exact absurd (breaks_readInteger_iff.2 hread) (h v)
  | unify terms =>
      rw [stepWith]
      split
      · exact ⟨rfl, fun _ => Answer.noConfusion⟩
      · rename_i v hterms
        exact absurd (breaks_unify_iff.2 hterms) (h v)
  | violate v => exact absurd (.reported v) (h v)

/-- **What a command does** that is carried out under a hook, with messages in a repertoire. -/
structure Protocol (chars : Text.Repertoire) (behaviour : Hook.Behaviour) (hook : Option Hook)
    (c : Command) (s : Step) : Prop where
  /-- A broken promise is logged once, and then the hook is run on it once. -/
  effects : ∀ v, c.Breaks v → s.effects = .logged v :: hook.toList.map fun h => .observed h v
  /-- There is one line in the log, and it tells of a fault. -/
  lines : ∀ v, c.Breaks v → ∀ debugging, Log.lines chars debugging (s.effects.filterMap logged?) =
    ["ERROR fatal contract violation err=" ++ v.message chars]
  /-- If the hook ends the call, that is how the call ends. -/
  ended : ∀ v, c.Breaks v → ∀ h ∈ hook, ∀ text ∈ behaviour h v, s.answer = .aborted text
  /-- Otherwise the call ends with the message of the violation. -/
  unended : ∀ v, c.Breaks v → (∀ h ∈ hook, behaviour h v = none) →
    s.answer = .aborted (v.message chars)
  /-- The hook is installed as before, however the call has ended. -/
  keeps : ∀ v, c.Breaks v → s.hook = hook
  /-- Without a broken promise there is no effect, and the call returns. -/
  returns : (∀ v, ¬ c.Breaks v) → s.effects = [] ∧ ∀ text, s.answer ≠ .aborted text
  /-- A fault of a literal is none of the caller, and is returned as an error. -/
  errs : ∀ token e, c = .readInteger token → Literal.IntegerReading token (.error (.error e)) →
    s.effects = [] ∧ s.answer = .error e
  /-- The hook is handed over to whom takes it. -/
  takes : c = .takeHook → s.answer = .taken hook

/-- One command follows the protocol. -/
theorem protocol_stepWith (behaviour : Hook.Behaviour) (hook : Option Hook) (c : Command) :
    Protocol chars behaviour hook c (stepWith chars behaviour hook c) where
  effects v h := by rw [stepWith_of_breaks chars h]; rfl
  lines v h debugging := by
    have hobserved : (hook.toList.map fun h => Effect.observed h v).filterMap logged? = [] := by
      cases hook <;> rfl
    rw [stepWith_of_breaks chars h, stopWith, Violation.abortWith, List.filterMap_cons, logged?,
      hobserved, Log.lines, List.filter_singleton]
    cases debugging <;> rfl
  ended v h new hnew text htext := by
    rw [stepWith_of_breaks chars h, stopWith, Violation.abortWith, Option.mem_def.1 hnew,
      Option.bind_some, Option.mem_def.1 htext, Option.getD_some]
  unended v h hnone := by
    have hbind : (hook.bind fun h => behaviour h v) = none := Option.bind_eq_none_iff.2 hnone
    rw [stepWith_of_breaks chars h, stopWith, Violation.abortWith, hbind, Option.getD_none]
  keeps v h := by rw [stepWith_of_breaks chars h]; rfl
  returns h := effects_stepWith_of_not_breaks chars h behaviour hook
  errs token e hc h := by
    rw [hc, stepWith, h.readInteger_eq]
    exact ⟨rfl, rfl⟩
  takes hc := by rw [hc, stepWith]

/-! ### Histories -/

/-- A command behind others is carried out under the hook that they have left. -/
theorem getElem?_runWith (behaviours : ℕ → Hook.Behaviour) (hook : Option Hook)
    (before after : List Command) (c : Command) :
    (runWith chars behaviours hook (before ++ c :: after))[before.length]? =
      some (stepWith chars (behaviours before.length) (hookAfter hook before) c) := by
  rw [runWith_append, List.getElem?_append_right (length_runWith ..).le, length_runWith,
    Nat.sub_self, runWith, List.getElem?_cons_zero, Nat.zero_add]

/-- **Every command of every history follows the protocol**, whatever hooks do and in whatever
repertoire messages are written: under the hook that was installed last and has not been taken away
since, which is there exactly if one was installed since one was last taken away. -/
theorem runWith_follows_protocol (behaviours : ℕ → Hook.Behaviour) (before after : List Command)
    (c : Command) :
    ∃ (hook : Option Hook) (s : Step),
      (runWith chars behaviours none (before ++ c :: after))[before.length]? = some s ∧
      (∀ h, hook = some h ↔ Installs before h) ∧
      (hook.isSome ↔ HasSetSinceTaken before) ∧
      Protocol chars (behaviours before.length) hook c s :=
  ⟨hookAfter none before, _, getElem?_runWith chars behaviours none before after c,
    hookAfter_eq_some_iff before, hookAfter_isSome_iff before, protocol_stepWith chars _ _ c⟩

/-- A hook that ends the call itself stays where it is, and is there to be taken away. -/
example : (runWith .standard (fun _ _ _ => some "stopped") none [.setHook ⟨"h"⟩,
      .readInteger "0xg", .readInteger "0x", .takeHook, .readInteger ""]).map
        (fun s => (s.hook.map Hook.tag, s.effects.length)) =
    [(some "h", 0), (some "h", 2), (some "h", 0), (none, 0), (none, 1)] := by decide

end Abort

end LogicTerms
