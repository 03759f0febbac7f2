/-
**The log of a unification.**

While debugging is on, the lines that unification logs tell what it did, no more and no less.  After
a success there is one line for each variable that was newly bound, in the order in which they were
bound, with the value that the variable has in the end, and there is nothing else.  After a failure
there is one line of that kind for each binding made until then, and behind them the line of the one
mismatch that the failure is due to.

A run may make its bindings anywhere in the tree of its steps, and may fail anywhere in it; so what
is to be shown is that every event comes from a state that the run meets, under the bindings that
the events before it have made.  That no run fails for another reason, without a line, is in
`Unification.recorded`: for want of cycles of variables no variable is bound a second time.

Main definitions:

* `Bindings.assignAll` — bindings made one after the other;
* `Bindings.NewlyBound` — the bindings that are in the second bindings only, in order;
* `Unification.State.Clashes` — a state that fails;
* `Unification.ComesTo`, `Unification.PairsMeet` — the terms that a run of pairs comes to, and the
  states that it meets;
* `Log.boundLine`, `Log.clashLine` — the lines of a binding and of a mismatch;
* `Log.Traces` — **lines that tell what a run did**.

Main results:

* `Unification.exists_pair_of_event` — every event of a run of pairs is one of a pair;
* `Unification.exists_emits` — **every event comes from a state of the run**;
* `Log.lines_trace` — **the log tells what unification did**.
-/

import LogicTerms.Log
import LogicTerms.Proofs.Reply.Resolution
import LogicTerms.Proofs.Unification.Record

set_option relaxedAutoImplicit false
set_option autoImplicit false

namespace LogicTerms

open Relation
open Unification (Event Run)

namespace Bindings

variable {P : Term → Prop} {env env' : Bindings} {made : List (Variable × Term)}
  {events : List Event}

/-! ### Bindings made one after the other -/

/-- The bindings with more, made one after the other. -/
def assignAll (env : Bindings) (made : List (Variable × Term)) : Bindings :=
  made.foldl (fun env m => env.assign m.1 m.2) env

/-- The record of bindings. -/
def boundEvents (made : List (Variable × Term)) : List Event := made.map fun m => .bound m.1 m.2

/-- What a record of bindings says is that they are made. -/
theorem replay_boundEvents (env : Bindings) (made : List (Variable × Term)) :
    env.replay (boundEvents made) = env.assignAll made := by
  rw [replay, boundEvents, List.foldl_map]
  rfl

theorem replay_append (env : Bindings) (events events' : List Event) :
    env.replay (events ++ events') = (env.replay events).replay events' := List.foldl_append

/-- What is newly bound in the second bindings, in the order in which it was bound. -/
structure NewlyBound (env : Bindings) (made : List (Variable × Term)) (env' : Bindings) :
    Prop where
  /-- The second bindings are the first and these. -/
  assignAll_eq : env.assignAll made = env'
  /-- No variable is there twice. -/
  nodup : (made.map fun m => m.1.id).Nodup
  /-- These are the variables that are bound in the second bindings and not in the first. -/
  mem_iff : ∀ i, i ∈ made.map (fun m => m.1.id) ↔ i ∈ env'.boundIds ∧ i ∉ env.boundIds
  /-- With each variable is the value that it has in the second bindings. -/
  find?_eq : ∀ m ∈ made, env'.find? m.1 = some m.2

theorem newlyBound_nil (env : Bindings) : env.NewlyBound [] env where
  assignAll_eq := rfl
  nodup := List.nodup_nil
  mem_iff _ := iff_of_false List.not_mem_nil fun h => h.2 h.1
  find?_eq _ hm := absurd hm List.not_mem_nil

theorem mem_boundIds_assign_iff {w : Variable} {t : Term} {i : UInt64} :
    i ∈ (env.assign w t).boundIds ↔ i = w.id ∨ i ∈ env.boundIds := by
  by_cases hi : i = w.id
  · refine iff_of_true (mem_boundIds_iff.2 ⟨t, ?_⟩) (.inl hi)
    exact find?_assign_self (w := ⟨w.name, i⟩) t hi
  · have hfind : (env.assign w t).values.find? i = env.values.find? i :=
      find?_assign_of_ne (w := ⟨w.name, i⟩) t hi
    rw [mem_boundIds_iff, hfind, ← mem_boundIds_iff, or_iff_right hi]

/-- A binding in front is one of another variable, which keeps its value. -/
theorem NewlyBound.cons {w : Variable} {t : Term} (hw : env.find? w = none)
    (ht : env'.find? w = some t) (h : (env.assign w t).NewlyBound made env') :
    env.NewlyBound ((w, t) :: made) env' := by
  have hnew : w.id ∉ env.boundIds := by
    intro hmem
    obtain ⟨u, hu⟩ := mem_boundIds_iff.1 hmem
    have hw : env.values.find? w.id = none := hw
    rw [hw] at hu
    cases hu
  have hmem : w.id ∉ made.map fun m => m.1.id := fun hmem =>
    ((h.mem_iff w.id).1 hmem).2 (mem_boundIds_assign_iff.2 (.inl rfl))
  refine ⟨h.assignAll_eq, List.nodup_cons.2 ⟨hmem, h.nodup⟩, fun i => ?_, ?_⟩
  · rw [List.map_cons, List.mem_cons, h.mem_iff, mem_boundIds_assign_iff, not_or]
    by_cases hi : i = w.id
    · rw [hi]
      exact iff_of_true (.inl rfl) ⟨mem_boundIds_iff.2 ⟨t, ht⟩, hnew⟩
    · simp only [hi, false_or, not_false_eq_true, true_and]
  · intro m hm
    obtain rfl | hm := List.mem_cons.1 hm
    · exact ht
    · exact h.find?_eq m hm

/-- A record of bindings has what is newly bound. -/
theorem Records.exists_made (h : Records P env events env') :
    ∃ made, events = boundEvents made ∧ env.NewlyBound made env' := by
  induction h with
  | nil env => exact ⟨[], rfl, newlyBound_nil env⟩
  | @bound env env' w t events hw _ _ _ _ h ih =>
      obtain ⟨made, rfl, hmade⟩ := ih
      have ht : env'.find? w = some t := h.toExtends.find?_eq (find?_assign_self t rfl)
      exact ⟨(w, t) :: made, rfl, hmade.cons hw ht⟩

end Bindings

namespace Unification

open Bindings

variable {env : Bindings} {a b : Term} {r : Run} {pairs : List (Term × Term)}
  {before after : List Event} {e : Event}

/-! ### Where events come from -/

/-- The state has two terms that no step makes the same. -/
structure State.Clashes (s : State) : Prop where
  left : s.left.isVariable = false
  right : s.right.isVariable = false
  not_sameHead : ¬ s.left.SameHead s.right

/-- The event is that of the state, and not of one that it calls. -/
inductive State.Emits (s : State) : Event → Prop
  | bound {v : Variable} {t : Term} : s.Binds v t → State.Emits s (.bound v t)
  | clash : s.Clashes → State.Emits s (clashEvent s.left s.right)

theorem State.Emits.exists_binds {s : State} {v : Variable} {t : Term} (h : s.Emits (.bound v t)) :
    s.Binds v t := by
  generalize he : Event.bound v t = e at h
  cases h with
  | bound h =>
      cases he
      exact h
  | clash _ =>
      have hmismatch := isMismatch_clashEvent s.left s.right
      rw [← he] at hmismatch
      cases hmismatch

theorem State.Emits.clashes {s : State} (h : s.Emits e) (he : e.isMismatch = true) :
    s.Clashes ∧ e = clashEvent s.left s.right := by
  cases h with
  | bound _ => cases he
  | clash h => exact ⟨h, rfl⟩

/-- The run of pairs comes to two terms: the pairs before them have been unified, and have left the
events and the bindings. -/
def ComesTo (step : Bindings → Term → Term → Option Run) (env : Bindings)
    (pairs : List (Term × Term)) (events : List Event) (env₁ : Bindings) (a b : Term) : Prop :=
  ∃ ps qs, pairs = ps ++ (a, b) :: qs ∧ unifyPairs step env ps = some ⟨events, some env₁⟩

/-- The states that the unification of pairs meets: those that a pair leads to under the bindings
that the pairs before it have left. -/
def PairsMeet (env : Bindings) (pairs : List (Term × Term)) (s : State) : Prop :=
  ∃ events env₁ a b, ComesTo unify env pairs events env₁ a b ∧ ReflTransGen Calls ⟨env₁, a, b⟩ s

section Pairs

variable {step : Bindings → Term → Term → Option Run} {env₁ env' : Bindings} {c d : Term}
  {events events' : List Event}

theorem comesTo_head : ComesTo step env ((a, b) :: pairs) [] env a b := ⟨[], pairs, rfl, rfl⟩

theorem ComesTo.cons (hab : step env a b = some ⟨events, some env'⟩)
    (h : ComesTo step env' pairs events' env₁ c d) :
    ComesTo step env ((a, b) :: pairs) (events ++ events') env₁ c d := by
  obtain ⟨ps, qs, rfl, hps⟩ := h
  refine ⟨(a, b) :: ps, qs, rfl, ?_⟩
  simp only [unifyPairs, hab, hps, Option.map_some, Run.after]

/-- An event of two records one behind the other is in the first or in the second. -/
theorem event_of_append (h : events ++ events' = before ++ e :: after) :
    (∃ after', events = before ++ e :: after') ∨
      ∃ before', before = events ++ before' ∧ events' = before' ++ e :: after := by
  rcases List.append_eq_append_iff.1 h with ⟨before', hbefore, hevents'⟩ | ⟨rest, hevents, hrest⟩
  · exact .inr ⟨before', hbefore, hevents'⟩
  · cases rest with
    | nil => exact .inr ⟨[], by rw [hevents, List.append_nil, List.append_nil], hrest.symm⟩
    | cons d rest =>
        obtain ⟨rfl, -⟩ := List.cons.inj hrest
        exact .inl ⟨rest, hevents⟩

/-- **Every event of a run of pairs is one of a pair** that the run comes to. -/
theorem exists_pair_of_event (h : unifyPairs step env pairs = some r)
    (he : r.events = before ++ e :: after) :
    ∃ events env₁ a b r₁ before' after', ComesTo step env pairs events env₁ a b ∧
      step env₁ a b = some r₁ ∧ before = events ++ before' ∧
      r₁.events = before' ++ e :: after' := by
  induction pairs generalizing env r before with
  | nil =>
      cases h
      exact absurd he.symm (by simp [Run.ok])
  | cons p pairs ih =>
      obtain ⟨a, b⟩ := p
      rw [unifyPairs] at h
      cases hs : step env a b with
      | none =>
          rw [hs] at h
          cases h
      | some s =>
          rw [hs] at h
          obtain ⟨events, _ | env'⟩ := s
          · cases h
            exact ⟨[], env, a, b, _, before, after, comesTo_head, hs, rfl, he⟩
          · obtain ⟨r', hr', rfl⟩ := Option.map_eq_some_iff.1 h
            rcases event_of_append he with ⟨after', hevents⟩ | ⟨before', rfl, hr⟩
            · exact ⟨[], env, a, b, _, before, after', comesTo_head, hs, rfl, hevents⟩
            · obtain ⟨events', env₁, c, d, r₁, before'', after', hcomes, hstep, rfl, hr₁⟩ :=
                ih hr' hr
              exact ⟨events ++ events', env₁, c, d, r₁, before'', after', hcomes.cons hs, hstep,
                (List.append_assoc _ _ _).symm, hr₁⟩

variable (hstep : ∀ env a b r, step env a b = some r → ∃ depth, unifyWithin depth env a b = some r)

include hstep

/-- Runs of pairs record what they do. -/
theorem recorded_pairs (h : unifyPairs step env pairs = some r) (hc : env.NoAliasCycle) :
    Recorded (fun _ => True) env r := by
  obtain ⟨depth, hd⟩ := exists_unifyPairs_within hstep h
  have hrun : unifyPairs unify env pairs = some r :=
    unifyPairs_mono (fun _ _ _ _ h => unify_eq_some_iff.2 ⟨depth, h⟩) hd
  exact recorded ((unifyPairs_unify_iff "").1 hrun) hc (closed_true env) trivial trivial

/-- What the pairs before two terms leave are the bindings that they record, without a new cycle. -/
theorem ComesTo.replay_eq (h : ComesTo step env pairs events env₁ a b) (hc : env.NoAliasCycle) :
    env.replay events = env₁ ∧ env₁.NoAliasCycle := by
  obtain ⟨ps, qs, -, hps⟩ := h
  have hrecords : Records (fun _ => True) env events env₁ := recorded_pairs hstep hps hc
  exact ⟨hrecords.replay_eq, hrecords.toExtends.noAliasCycle hc⟩

end Pairs

/-- A record of one event is that event. -/
theorem eq_of_singleton {d : Event} (h : [d] = before ++ e :: after) : before = [] ∧ e = d := by
  cases before with
  | nil => exact ⟨rfl, (List.cons.inj h).1.symm⟩
  | cons c before => simp at h

/-- A state that binds or clashes emits all that its run records. -/
theorem emits_of_unifyUnbound {v w : Variable} (hw : env.deref (.var v) = .var w)
    (hn : env.find? w = none)
    (he : (unifyUnbound env w (env.deref b)).events = before ++ e :: after) :
    before = [] ∧ State.Emits ⟨env, .var v, b⟩ e := by
  by_cases hne : ∀ x, env.deref b = .var x → x.id ≠ w.id
  · have hbinds : State.Binds ⟨env, .var v, b⟩ w (env.deref b) := .intro hw hne
    have hrun := hbinds.run_eq 0
    rw [State.run, unifyWithin_unbound 0 hw, bindVariable, bind_eq_ok_iff.2 ⟨hn, rfl⟩] at hrun
    rw [Option.some.inj hrun] at he
    obtain ⟨hbefore, rfl⟩ := eq_of_singleton he
    exact ⟨hbefore, .bound hbinds⟩
  · push Not at hne
    obtain ⟨x, hx, hid⟩ := hne
    rw [hx, unifyUnbound, if_pos hid] at he
    simp [Run.ok] at he

/-- **Every event comes from a state of the run**, under the bindings that the events before it
have made. -/
theorem exists_emits {depth : ℕ} (h : unifyWithin depth env a b = some r) (hc : env.NoAliasCycle)
    (he : r.events = before ++ e :: after) :
    ∃ s, ReflTransGen Calls ⟨env, a, b⟩ s ∧ s.env = env.replay before ∧ s.Emits e := by
  induction depth generalizing env a b r before after with
  | zero => cases h
  | succ depth ih =>
      cases situation env a b with
      | @unbound v w b hw =>
          rw [unifyWithin_unbound depth hw] at h
          cases h
          have hn : env.find? w = none := settled_var_iff.1 (hw ▸ settled_deref hc _)
          obtain ⟨rfl, hemits⟩ := emits_of_unifyUnbound hw hn he
          exact ⟨_, .refl, rfl, hemits⟩
      | @resolved v c b hd hvar =>
          rw [unifyWithin_resolved depth hd hvar] at h
          obtain ⟨s, hs, hemits⟩ := ih h hc he
          exact ⟨s, hs.head (.resolved b hd hvar), hemits⟩
      | @swapped a w ha =>
          rw [unifyWithin_swapped depth ha] at h
          obtain ⟨s, hs, hemits⟩ := ih h hc he
          exact ⟨s, hs.head (.swapped w ha), hemits⟩
      | atoms c =>
          rw [unifyWithin_atoms] at h
          cases h
          simp [Run.ok] at he
      | nums hmn =>
          rw [unifyWithin_nums depth hmn] at h
          cases h
          simp [Run.ok] at he
      | @compounds f as bs hlen =>
          rw [unifyWithin_compounds depth f hlen] at h
          obtain ⟨events, env₁, c, d, r₁, before', after', hcomes, hstep, rfl, hr₁⟩ :=
            exists_pair_of_event h he
          obtain ⟨hreplay, hc₁⟩ := hcomes.replay_eq (fun _ _ _ _ h => ⟨depth, h⟩) hc
          obtain ⟨s, hs, henv, hemits⟩ := ih hstep hc₁ hr₁
          obtain ⟨ps, qs, hzip, hps⟩ := hcomes
          refine ⟨s, hs.head (.argument hlen hzip hps), ?_, hemits⟩
          rw [henv, replay_append, hreplay]
      | clash ha hb hab =>
          rw [unifyWithin_clashEvent depth env ha hb hab] at h
          cases h
          obtain ⟨rfl, rfl⟩ := eq_of_singleton he
          exact ⟨_, .refl, rfl, .clash (s := ⟨env, a, b⟩) ⟨ha, hb, hab⟩⟩

/-- Every event of a run of pairs comes from a state that the pairs meet. -/
theorem exists_emits_of_pairs (h : unifyPairs unify env pairs = some r) (hc : env.NoAliasCycle)
    (he : r.events = before ++ e :: after) :
    ∃ s, PairsMeet env pairs s ∧ s.env = env.replay before ∧ s.Emits e := by
  obtain ⟨events, env₁, a, b, r₁, before', after', hcomes, hstep, rfl, hr₁⟩ :=
    exists_pair_of_event h he
  obtain ⟨hreplay, hc₁⟩ := hcomes.replay_eq (fun _ _ _ _ h => ⟨_, h⟩) hc
  obtain ⟨s, hs, henv, hemits⟩ := exists_emits hstep hc₁ hr₁
  refine ⟨s, ⟨events, env₁, a, b, hcomes, hs⟩, ?_, hemits⟩
  rw [henv, replay_append, hreplay]

end Unification

namespace Log

open Unification Bindings

variable {S : State → Prop} {env : Bindings} {made : List (Variable × Term)}

/-! ### Lines -/

/-- The line of a binding: the variable, its id, and the term that it is bound to. -/
def boundLine (m : Variable × Term) : String := eventLine (.bound m.1 m.2)

/-- The line of two terms that clash. -/
def clashLine (a b : Term) : String := eventLine (clashEvent a b)

theorem toList_eventLine (e : Event) : (eventLine e).toList = "DEBUG ".toList ++ eventText e := by
  rw [eventLine, String.toList_append, String.toList_ofList (l := eventText e)]

/-- Lines of bindings are told from those of clashes by what they start with. -/
theorem boundLine_ne_clashLine (m : Variable × Term) (a b : Term) :
    boundLine m ≠ clashLine a b := by
  intro h
  have htext := congrArg String.toList h
  rw [boundLine, clashLine, toList_eventLine, toList_eventLine] at htext
  have hclash : ∃ cs, eventText (clashEvent a b) = 'c' :: cs := by
    unfold clashEvent
    split <;> exact ⟨_, rfl⟩
  obtain ⟨cs, hcs⟩ := hclash
  rw [hcs] at htext
  have hhead := (List.cons.inj (List.append_cancel_left htext)).1
  exact absurd hhead (by decide)

/-- What unification records, line by line. -/
def unificationLines (chars : Text.Repertoire) (setting : Option String) (events : List Event) :
    List String :=
  lines chars (isDebugging setting) (events.map .unification)

/-- While debugging is on, every event is logged, in every repertoire by the same line. -/
theorem unificationLines_of_debugging (chars : Text.Repertoire) {setting : Option String}
    (hd : isDebugging setting = true) (events : List Event) :
    unificationLines chars setting events = events.map eventLine := by
  rw [unificationLines, hd, lines]
  simp only [Bool.true_or, List.filter_true, List.map_map]
  rfl

/-! ### Traces -/

/-- Each binding was made by one of the states, under the bindings before it. -/
def MadeBy (S : State → Prop) (env : Bindings) (made : List (Variable × Term)) : Prop :=
  ∀ before v t after, made = before ++ (v, t) :: after →
    ∃ s, S s ∧ s.env = env.assignAll before ∧ s.Binds v t

/-- **Lines that tell what a run did** that met the given states and came from the given bindings to
its outcome. -/
inductive Traces (S : State → Prop) (env : Bindings) : Option Bindings → List String → Prop
  /-- A success: what is newly bound, in order. -/
  | success {env' : Bindings} {made : List (Variable × Term)} : MadeBy S env made →
      env.NewlyBound made env' → Traces S env (some env') (made.map boundLine)
  /-- A failure: what was newly bound where two terms clashed, and the clash. -/
  | failure {s : State} {made : List (Variable × Term)} : MadeBy S env made → S s → s.Clashes →
      env.NewlyBound made s.env →
      Traces S env none (made.map boundLine ++ [clashLine s.left s.right])

theorem lines_boundEvents (made : List (Variable × Term)) :
    (boundEvents made).map eventLine = made.map boundLine := by
  rw [boundEvents, List.map_map]
  rfl

/-- The bindings in front of a record are made by the states that the events come from. -/
theorem madeBy_of_origin {events rest : List Event}
    (horigin : ∀ before e after, events = before ++ e :: after →
      ∃ s, S s ∧ s.env = env.replay before ∧ s.Emits e)
    (hevents : events = boundEvents made ++ rest) : MadeBy S env made := by
  rintro before v t after rfl
  have hsplit : events = boundEvents before ++ .bound v t :: (boundEvents after ++ rest) := by
    rw [hevents, boundEvents, List.map_append, List.append_assoc]
    rfl
  obtain ⟨s, hs, henv, hemits⟩ := horigin _ _ _ hsplit
  exact ⟨s, hs, henv.trans (replay_boundEvents env before), hemits.exists_binds⟩

/-- A record whose events come from the states of a run traces it. -/
theorem traces_of_recorded (chars : Text.Repertoire) {setting : Option String} {r : Run}
    (hd : isDebugging setting = true) (hr : Recorded (fun _ => True) env r)
    (horigin : ∀ before e after, r.events = before ++ e :: after →
      ∃ s, S s ∧ s.env = env.replay before ∧ s.Emits e) :
    Traces S env r.outcome (unificationLines chars setting r.events) := by
  rw [unificationLines_of_debugging chars hd]
  obtain ⟨events, _ | env'⟩ := r
  · obtain ⟨bindings, e, env', hevents, hmismatch, hrecords⟩ := hr
    obtain ⟨made, rfl, hmade⟩ := hrecords.exists_made
    obtain ⟨s, hs, henv, hemits⟩ := horigin _ _ _ hevents
    obtain ⟨hclash, rfl⟩ := hemits.clashes hmismatch
    rw [hrecords.replay_eq] at henv
    have hlines : events.map eventLine =
        made.map boundLine ++ [clashLine s.left s.right] := by
      have hevents : events = boundEvents made ++ [clashEvent s.left s.right] := hevents
      rw [hevents, List.map_append, lines_boundEvents]
      rfl
    rw [hlines]
    exact .failure (madeBy_of_origin horigin hevents) hs hclash (henv ▸ hmade)
  · have hrecords : Records (fun _ => True) env events env' := hr
    obtain ⟨made, rfl, hmade⟩ := hrecords.exists_made
    have hevents : boundEvents made = boundEvents made ++ [] := (List.append_nil _).symm
    rw [lines_boundEvents]
    exact .success (madeBy_of_origin horigin hevents) hmade

/-- **The log tells what unification did.**  While debugging is on, and without a cycle of variables
to begin with, the lines of a success are those of the bindings that are new in the end, in the
order in which the run made them; the lines of a failure are those of the bindings that the run had
made when two terms clashed, and then the line of the clash, which is a line of another kind.  This
holds of the unification of two terms, and of a reply that says to unify pairs. -/
theorem lines_trace (chars : Text.Repertoire) {setting : Option String} (hc : env.NoAliasCycle)
    (hd : isDebugging setting = true) :
    (∀ a b r, unify env a b = some r →
      Traces (ReflTransGen Calls ⟨env, a, b⟩) env r.outcome
        (unificationLines chars setting r.events)) ∧
    (∀ pairs s, (Reply.unify pairs).resolve env = some s → ∃ outcome, s.outcome = .ok outcome ∧
      Traces (PairsMeet env pairs) env outcome (unificationLines chars setting s.events)) ∧
    ∀ m a b, boundLine m ≠ clashLine a b := by
  refine ⟨fun a b r h => ?_, fun pairs s h => ?_, boundLine_ne_clashLine⟩
  · refine traces_of_recorded chars hd (recorded h hc (closed_true env) trivial trivial) ?_
    intro before e after he
    exact exists_emits h hc he
  · rw [Reply.resolve_unify] at h
    obtain ⟨r, hr, rfl⟩ := Option.map_eq_some_iff.1 h
    refine ⟨r.outcome, rfl, traces_of_recorded chars hd ?_ ?_⟩
    · exact recorded_pairs (fun _ _ _ _ h => ⟨_, h⟩) hr hc
    · intro before e after he
      exact exists_emits_of_pairs hr hc he

/-- A variable is bound to another and that one to an atom, which another atom clashes with if there
is a third pair. -/
theorem lines_trace_pairs :
    Traces (ReflTransGen Calls ⟨.empty, .compound "f" [.var ⟨"X", 1⟩, .var ⟨"X", 1⟩],
        .compound "f" [.var ⟨"Y", 2⟩, .atom "a"]⟩) .empty
      (some (.assign (.assign .empty ⟨"X", 1⟩ (.var ⟨"Y", 2⟩)) ⟨"Y", 2⟩ (.atom "a")))
      ["DEBUG bind X (#1) = Y", "DEBUG bind Y (#2) = a"] ∧
    Traces (PairsMeet .empty [(.var ⟨"X", 1⟩, .var ⟨"Y", 2⟩), (.var ⟨"X", 1⟩, .atom "a"),
        (.var ⟨"Y", 2⟩, .atom "b")]) .empty none
      ["DEBUG bind X (#1) = Y", "DEBUG bind Y (#2) = a", "DEBUG can't unify a with b"] := by
  have hd : isDebugging (some "1") = true := by decide
  obtain ⟨hterms, hpairs, -⟩ := lines_trace .standard noAliasCycle_empty hd
  have hrun : unify .empty (.compound "f" [.var ⟨"X", 1⟩, .var ⟨"X", 1⟩])
      (.compound "f" [.var ⟨"Y", 2⟩, .atom "a"]) =
      some ⟨[.bound ⟨"X", 1⟩ (.var ⟨"Y", 2⟩), .bound ⟨"Y", 2⟩ (.atom "a")],
        some (.assign (.assign .empty ⟨"X", 1⟩ (.var ⟨"Y", 2⟩)) ⟨"Y", 2⟩ (.atom "a"))⟩ := rfl
  have hresolve : (Reply.unify [(.var ⟨"X", 1⟩, .var ⟨"Y", 2⟩), (.var ⟨"X", 1⟩, .atom "a"),
      (.var ⟨"Y", 2⟩, .atom "b")]).resolve .empty =
      some ⟨[.bound ⟨"X", 1⟩ (.var ⟨"Y", 2⟩), .bound ⟨"Y", 2⟩ (.atom "a"),
        .mismatch (.atom "a") (.atom "b")], .ok none⟩ := rfl
  have hsuccess := hterms _ _ _ hrun
  obtain ⟨outcome, houtcome, hfailure⟩ := hpairs _ _ hresolve
  cases houtcome
  have hbound : unificationLines .standard (some "1")
      [.bound ⟨"X", 1⟩ (.var ⟨"Y", 2⟩), .bound ⟨"Y", 2⟩ (.atom "a")] =
      ["DEBUG bind X (#1) = Y", "DEBUG bind Y (#2) = a"] := by decide
  have hclash : unificationLines .standard (some "1") [.bound ⟨"X", 1⟩ (.var ⟨"Y", 2⟩),
      .bound ⟨"Y", 2⟩ (.atom "a"), .mismatch (.atom "a") (.atom "b")] =
      ["DEBUG bind X (#1) = Y", "DEBUG bind Y (#2) = a", "DEBUG can't unify a with b"] := by decide
  exact ⟨hbound ▸ hsuccess, hclash ▸ hfailure⟩

end Log

end LogicTerms
