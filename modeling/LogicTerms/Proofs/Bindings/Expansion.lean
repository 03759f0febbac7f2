/-
**Expansion ends.**

The expansion of a term goes down to its arguments and, at a variable, on to what the variable stands
for.  That may be a larger term, and it may lead back to where the expansion came from; all that
stops it is that a variable is left alone inside its own expansion.  This is enough: a variable whose
value is expanded is bound and is not being expanded already, so along every way down the values of
different bound variables are expanded, and between two of them the terms get smaller.

The recursion is described here by its steps and by its results, without any bound on how deep it may
go, and the bound that `Bindings.expand` computes with turns out to make no difference.

Main definitions:

* `Bindings.Site`, `Bindings.Descends` — a place in an expansion, and the places next to it below;
* `Bindings.Expands` — what the recursion makes of a term;
* `Bindings.Site.IsRegular` — different bound variables are being expanded.

Main results:

* `Bindings.wellFounded_descends` — every way down ends;
* `Bindings.Descends.isRegular` — a step down keeps to different bound variables;
* `Bindings.expands_iff` — the recursion has one result, which any sufficient bound computes;
* `Bindings.expand_terminates` — **every term has an expansion**, and so have the answers by name.
-/

import LogicTerms.Proofs.Bindings.Acyclic
import Mathlib.Data.List.Forall2
import Mathlib.Data.Prod.Lex

set_option relaxedAutoImplicit false
set_option autoImplicit false

namespace LogicTerms.Bindings

open Relation

variable {env : Bindings}

/-! ### The recursion -/

/-- A place in an expansion: the ids of the variables whose values are being expanded around it, the
innermost first, and the term that is there. -/
structure Site where
  /-- The variables around it. -/
  within : List UInt64
  /-- The term. -/
  term : Term

/-- To expand the first place, the second has to be expanded. -/
inductive Descends (env : Bindings) : Site → Site → Prop
  | argument {within : List UInt64} {f : String} {args : List Term} {a : Term} : a ∈ args →
      Descends env ⟨within, .compound f args⟩ ⟨within, a⟩
  | value {within : List UInt64} {n : ℕ} {v : Variable} {t : Term} : v.id ∉ within →
      env.Follows n (.var v) t → t.isVariable = false →
      Descends env ⟨within, .var v⟩ ⟨v.id :: within, t⟩

/-- Inside the expansions of variables, the first term becomes the second. -/
inductive Expands (env : Bindings) : List UInt64 → Term → Term → Prop
  /-- A variable inside its own expansion stays. -/
  | inside {within : List UInt64} {v : Variable} : v.id ∈ within →
      Expands env within (.var v) (.var v)
  /-- A variable that leads to an unbound one is replaced by that. -/
  | unbound {within : List UInt64} {n : ℕ} {v w : Variable} : v.id ∉ within →
      env.Follows n (.var v) (.var w) → env.find? w = none → Expands env within (.var v) (.var w)
  /-- A variable that leads to another term is replaced by that, expanded inside its expansion. -/
  | value {within : List UInt64} {n : ℕ} {v : Variable} {t u : Term} : v.id ∉ within →
      env.Follows n (.var v) t → t.isVariable = false → Expands env (v.id :: within) t u →
      Expands env within (.var v) u
  | atom {within : List UInt64} (a : String) : Expands env within (.atom a) (.atom a)
  | num {within : List UInt64} (n : Number) : Expands env within (.num n) (.num n)
  /-- The arguments of a compound are expanded each on its own. -/
  | compound {within : List UInt64} (f : String) {as bs : List Term} : as.length = bs.length →
      (∀ p ∈ as.zip bs, Expands env within p.1 p.2) →
      Expands env within (.compound f as) (.compound f bs)

/-! ### Ways down -/

/-- A variable that leads to another term is bound. -/
theorem Follows.mem_boundIds {n : ℕ} {v : Variable} {t : Term} (h : env.Follows n (.var v) t)
    (ht : t.isVariable = false) : v.id ∈ env.boundIds := by
  cases h with
  | here => exact nomatch ht
  | step hv _ => exact mem_boundIds_iff.2 ⟨_, hv⟩

/-- The bound variables that are not being expanded. -/
def Site.fresh (env : Bindings) (s : Site) : Finset UInt64 := env.boundIds.filter (· ∉ s.within)

/-- **Every way down ends**: with the value of a variable there is a variable less whose value could
still be expanded, and with an argument the term gets smaller. -/
theorem wellFounded_descends (env : Bindings) : WellFounded fun s' s => env.Descends s s' := by
  refine Subrelation.wf (fun {s' s} h => ?_)
    (InvImage.wf (fun s : Site => toLex ((s.fresh env).card, sizeOf s.term)) wellFounded_lt)
  rw [InvImage, Prod.Lex.toLex_lt_toLex]
  cases h with
  | @argument within f args a ha =>
      have hlt : sizeOf a < sizeOf args := List.sizeOf_lt_of_mem ha
      refine .inr ⟨rfl, ?_⟩
      simp only [Term.compound.sizeOf_spec]
      omega
  | @value within n v t hv hf ht =>
      have hmem : v.id ∈ Site.fresh env ⟨within, .var v⟩ :=
        Finset.mem_filter.2 ⟨hf.mem_boundIds ht, hv⟩
      have hnot : v.id ∉ Site.fresh env ⟨v.id :: within, t⟩ := fun h =>
        (Finset.mem_filter.1 h).2 List.mem_cons_self
      have hsub : Site.fresh env ⟨v.id :: within, t⟩ ⊆ Site.fresh env ⟨within, .var v⟩ := by
        intro i hi
        obtain ⟨hb, hw⟩ := Finset.mem_filter.1 hi
        exact Finset.mem_filter.2 ⟨hb, fun h => hw (List.mem_cons_of_mem _ h)⟩
      exact .inl (Finset.card_lt_card ((Finset.ssubset_iff_of_subset hsub).2 ⟨_, hmem, hnot⟩))

/-- The variables that are being expanded are different and bound. -/
structure Site.IsRegular (env : Bindings) (s : Site) : Prop where
  /-- No variable is there twice. -/
  nodup : s.within.Nodup
  /-- Every variable is bound. -/
  bound : ∀ i ∈ s.within, i ∈ env.boundIds

theorem Site.IsRegular.length_le {s : Site} (h : s.IsRegular env) : s.within.length ≤ env.size := by
  calc s.within.length = s.within.toFinset.card := (List.toFinset_card_of_nodup h.nodup).symm
    _ ≤ env.boundIds.card := Finset.card_le_card fun i hi => h.bound i (List.mem_toFinset.1 hi)
    _ = env.size := env.card_boundIds

/-- **A step down keeps to different bound variables.** -/
theorem Descends.isRegular {s s' : Site} (h : env.Descends s s') (hs : s.IsRegular env) :
    s'.IsRegular env := by
  cases h with
  | argument _ => exact ⟨hs.nodup, hs.bound⟩
  | value hv hf ht =>
      exact ⟨List.nodup_cons.2 ⟨hv, hs.nodup⟩,
        List.forall_mem_cons.2 ⟨hf.mem_boundIds ht, hs.bound⟩⟩

/-- All along a way down from a term the variables that are being expanded are different and bound. -/
theorem isRegular_of_descends {t : Term} {s : Site} (h : ReflTransGen env.Descends ⟨[], t⟩ s) :
    s.IsRegular env := by
  induction h with
  | refl => exact ⟨List.nodup_nil, fun i hi => nomatch hi⟩
  | tail _ hstep ih => exact hstep.isRegular ih

/-! ### Results -/

/-- A walk that has come to its end has come to what its start stands for. -/
theorem Follows.eq_deref (hc : env.NoAliasCycle) {n : ℕ} {t u : Term} (h : env.Follows n t u)
    (hu : env.Settled u) : env.deref t = u :=
  (h.deref_eq_deref hc).trans (deref_of_settled hu)

theorem settled_of_isVariable_eq_false {t : Term} (ht : t.isVariable = false) : env.Settled t := by
  rintro v rfl
  exact nomatch ht

/-- Inside its own expansion a variable stays, whatever the depth. -/
theorem expandVariable_of_mem {within : List UInt64} {v : Variable} (h : v.id ∈ within)
    (depth : ℕ) : env.expandVariable depth within v = .var v := by
  cases depth with
  | zero => rfl
  | succ depth =>
      rw [expandVariable, if_pos]
      simpa using h

/-- A variable that stands for another term becomes what that term becomes. -/
theorem expands_value_iff (hc : env.NoAliasCycle) {within : List UInt64} {v : Variable} {t : Term}
    (hv : v.id ∉ within) (hd : env.deref (.var v) = t) (ht : t.isVariable = false) {u : Term} :
    env.Expands within (.var v) u ↔ env.Expands (v.id :: within) t u := by
  constructor
  · intro h
    cases h with
    | inside hm => exact absurd hm hv
    | unbound _ hf hw =>
        rw [hf.eq_deref hc (settled_var_iff.2 hw)] at hd
        rw [← hd] at ht
        exact nomatch ht
    | value _ hf ht' hu =>
        rw [hf.eq_deref hc (settled_of_isVariable_eq_false ht')] at hd
        exact hd ▸ hu
  · intro h
    obtain ⟨n, -, hf, -⟩ := follows_deref hc (.var v)
    exact .value hv (hd ▸ hf) ht h

/-- A variable that leads to an unbound variable becomes that. -/
theorem expands_unbound_iff (hc : env.NoAliasCycle) {within : List UInt64} {v w : Variable}
    (hv : v.id ∉ within) (hd : env.deref (.var v) = .var w) {u : Term} :
    env.Expands within (.var v) u ↔ u = .var w := by
  constructor
  · intro h
    cases h with
    | inside hm => exact absurd hm hv
    | unbound _ hf hw => rw [← hf.eq_deref hc (settled_var_iff.2 hw), hd]
    | value _ hf ht _ =>
        rw [hf.eq_deref hc (settled_of_isVariable_eq_false ht)] at hd
        rw [hd] at ht
        exact nomatch ht
  · rintro rfl
    obtain ⟨n, -, hf, hs⟩ := follows_deref hc (.var v)
    rw [hd] at hf hs
    exact .unbound hv hf (settled_var_iff.1 hs)

theorem expands_inside_iff {within : List UInt64} {v : Variable} (hv : v.id ∈ within) {u : Term} :
    env.Expands within (.var v) u ↔ u = .var v := by
  constructor
  · intro h
    cases h with
    | inside _ => rfl
    | unbound hn _ _ => exact absurd hv hn
    | value hn _ _ _ => exact absurd hv hn
  · rintro rfl
    exact .inside hv

/-- A compound becomes the compound of what its arguments become. -/
theorem expands_compound_iff {within : List UInt64} {f : String} {args : List Term} {g : Term → Term}
    (h : ∀ a ∈ args, ∀ u, env.Expands within a u ↔ u = g a) {u : Term} :
    env.Expands within (.compound f args) u ↔ u = .compound f (args.map g) := by
  have hargs : ∀ bs, List.Forall₂ (env.Expands within) args bs ↔ bs = args.map g := by
    induction args with
    | nil => simp
    | cons a args ih =>
        intro bs
        have hb : ∀ b, env.Expands within a b ↔ b = g a := h a List.mem_cons_self
        have hbs := ih fun c hc => h c (List.mem_cons_of_mem a hc)
        cases bs with
        | nil => simp
        | cons b bs => rw [List.forall₂_cons, hb, hbs, List.map_cons, List.cons.injEq]
  constructor
  · intro hu
    cases hu with
    | @compound _ _ _ bs hlen hall =>
        rw [(hargs bs).1 (List.forall₂_iff_zip.2 ⟨hlen, fun hp => hall _ hp⟩)]
  · rintro rfl
    obtain ⟨hlen, hall⟩ := List.forall₂_iff_zip.1 ((hargs _).2 rfl)
    exact .compound f hlen fun p hp => hall hp

/-- **The recursion has one result**, and every depth computes it that leaves room for the values of
all bound variables. -/
theorem expands_iff (hc : env.NoAliasCycle) {s : Site} (hs : s.IsRegular env) {depth : ℕ}
    (hdepth : env.size < s.within.length + depth) {u : Term} :
    env.Expands s.within s.term u ↔ u = s.term.subst (env.expandVariable depth s.within) := by
  -- on the ways down from the place
  induction s using (wellFounded_descends env).induction generalizing depth u with
  | _ s ih =>
      obtain ⟨within, t⟩ := s
      have hlen := hs.length_le
      obtain ⟨depth, rfl⟩ : ∃ k, depth = k + 1 := ⟨depth - 1, by simp only at hlen hdepth; omega⟩
      cases t with
      | var v =>
          show env.Expands within (.var v) u ↔ u = env.expandVariable (depth + 1) within v
          by_cases hv : v.id ∈ within
          · rw [expandVariable_of_mem hv, expands_inside_iff hv]
          · rw [expandVariable_succ hv]
            have hvalue : ∀ t, env.deref (.var v) = t → t.isVariable = false →
                (env.Expands within (.var v) u ↔
                  u = t.subst (env.expandVariable depth (v.id :: within))) := by
              intro t hd ht
              obtain ⟨n, -, hf, -⟩ := follows_deref hc (.var v)
              have hdown : env.Descends ⟨within, .var v⟩ ⟨v.id :: within, t⟩ :=
                .value hv (hd ▸ hf) ht
              rw [expands_value_iff hc hv hd ht]
              refine ih _ hdown (hdown.isRegular hs) ?_
              simp only [List.length_cons] at hdepth ⊢
              omega
            cases hd : env.deref (.var v) with
            | var w => exact expands_unbound_iff hc hv hd
            | _ => exact hvalue _ hd rfl
      | atom a =>
          constructor
          · rintro ⟨⟩
            rfl
          · rintro rfl
            exact .atom a
      | num n =>
          constructor
          · rintro ⟨⟩
            rfl
          · rintro rfl
            exact .num n
      | compound f args =>
          rw [Term.subst, Term.substArgs_eq_map]
          exact expands_compound_iff fun a ha u =>
            ih ⟨within, a⟩ (.argument ha) ((Descends.argument ha).isRegular hs) hdepth

/-- The recursion makes of a term what its expansion is. -/
theorem expands_nil_iff (hc : env.NoAliasCycle) {t u : Term} :
    env.Expands [] t u ↔ u = env.expand t :=
  expands_iff (s := ⟨[], t⟩) hc ⟨List.nodup_nil, fun i hi => nomatch hi⟩ (by simp)

/-! ### Answers -/

/-- Every entry of a list has the text of its name with what the recursion makes of its variable. -/
theorem exists_answers (hc : env.NoAliasCycle) (entries : List (String × Variable)) :
    ∃ answers : List Term, List.Forall₂ (fun e u => env.Expands [] (.var e.2) u) entries answers ∧
      entries.map env.answerText =
        List.zipWith (fun e u => e.1.toList ++ " = ".toList ++ u.text) entries answers := by
  refine ⟨entries.map fun e => env.expand (.var e.2), ?_, ?_⟩
  · rw [List.forall₂_map_right_iff, List.forall₂_same]
    exact fun e _ => (expands_nil_iff hc).2 rfl
  · rw [List.zipWith_map_right, List.zipWith_self]
    rfl

/-- **Every term has an expansion**, however bindings refer to one another, if no variable leads back
to itself along variables.  Every way down ends, and along it different bound variables are
expanded, never more than there are.  The recursion has one result, and so the answer for a name and
the text of all answers are there too. -/
theorem expand_terminates (hc : env.NoAliasCycle) :
    (WellFounded fun s' s => env.Descends s s') ∧
      (∀ t s, ReflTransGen env.Descends ⟨[], t⟩ s →
        s.within.Nodup ∧ (∀ i ∈ s.within, i ∈ env.boundIds) ∧ s.within.length ≤ env.size) ∧
      (∀ t u, env.Expands [] t u ↔ u = env.expand t) ∧
      (∀ name u, env.byName? name = some u ↔
        ∃ v, env.names.find? name = some v ∧ env.Expands [] (.var v) u) ∧
      ∃ answers : List Term,
        List.Forall₂ (fun e u => env.Expands [] (.var e.2) u) (env.sortedNames.filter env.isShown)
          answers ∧
        env.text = '\x7b' :: (", ".toList.intercalate
          (List.zipWith (fun e u => e.1.toList ++ " = ".toList ++ u.text)
            (env.sortedNames.filter env.isShown) answers) ++ ['\x7d']) := by
  refine ⟨wellFounded_descends env, ?_, fun t u => expands_nil_iff hc, ?_, ?_⟩
  · intro t s h
    have hs := isRegular_of_descends h
    exact ⟨hs.nodup, hs.bound, hs.length_le⟩
  · intro name u
    rw [byName?, Option.map_eq_some_iff]
    simp only [expands_nil_iff hc, eq_comm]
  · obtain ⟨answers, hall, htext⟩ := exists_answers hc (env.sortedNames.filter env.isShown)
    exact ⟨answers, hall, by rw [text, htext]⟩

/-- Two variables, each part of the value of the other. -/
theorem expand_terminates_mutual :
    ∃ env : Bindings, env.NoAliasCycle ∧ ¬ env.Acyclic ∧ env.size = 2 ∧
      (∀ t s, ReflTransGen env.Descends ⟨[], t⟩ s → s.within.length ≤ 2) ∧
      env.Expands [] (.var ⟨"X", 1⟩) (.compound "f" [.compound "g" [.var ⟨"X", 1⟩]]) := by
  have hX : NoAliasCycle (.assign .empty ⟨"X", 1⟩ (.compound "f" [.var ⟨"Y", 2⟩])) :=
    noAliasCycle_empty.assign rfl fun w hw => nomatch hw
  have hXY : NoAliasCycle (.assign (.assign .empty ⟨"X", 1⟩ (.compound "f" [.var ⟨"Y", 2⟩]))
      ⟨"Y", 2⟩ (.compound "g" [.var ⟨"X", 1⟩])) :=
    hX.assign rfl fun w hw => nomatch hw
  obtain ⟨-, hways, hexpands, -⟩ := expand_terminates hXY
  refine ⟨_, hXY, fun hA => hA 1 (.tail (.single (b := 2) ?_) ?_), rfl, ?_, (hexpands _ _).2 rfl⟩
  · exact ⟨_, rfl, ⟨"Y", 2⟩, List.mem_cons_self, rfl⟩
  · exact ⟨_, rfl, ⟨"X", 1⟩, List.mem_cons_self, rfl⟩
  · intro t s h
    obtain ⟨-, -, hlen⟩ := hways t s h
    exact hlen

end LogicTerms.Bindings
