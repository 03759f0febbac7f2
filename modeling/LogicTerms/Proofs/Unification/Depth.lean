/-
**How deep a run can go.**

A run that never ends comes back to a state that it was in before, so a depth that no run exceeds
without repeating a state is as good as any: `unify`, which takes such a depth, gives a result
whenever some depth does.

The argument follows the states that are nested in one another.  A run that needs `d + 1` levels of
nested steps has a step that needs exactly `d`, so a run that needs many levels has as many
different states nested in one another.  The terms of all these states are among the subterms of
the two terms and of the values, and their bindings extend one another; so a state is known by the
number of its bindings and its two terms, of which there are not more than `depthBound`.

Main definitions:

* `Term.subterms`, `Unification.places` — the terms that a run can meet;
* `Unification.State`, `Unification.Calls` — a state, and the states nested in it;
* `Unification.Needs` — the number of levels of nested steps that a run needs.

Main results:

* `Unification.Needs.exists_call` — a run that needs another level has a step that needs the others;
* `Unification.Needs.exists_keys` — a run meets as many states as it needs levels;
* `Unification.unify_eq_some_iff` — **`unify` ends exactly if the run does**.
-/

import LogicTerms.Proofs.Unification.Extension
import Mathlib.Data.Finset.Prod
import Mathlib.Tactic.Ring

set_option relaxedAutoImplicit false
set_option autoImplicit false

namespace LogicTerms

/-! ### Subterms -/

namespace Term

mutual

/-- The subterms of a term, itself included, once for every place. -/
def subterms : Term → List Term
  | compound f args => compound f args :: subtermsArgs args
  | t => [t]

/-- The subterms of the terms of a list. -/
def subtermsArgs : List Term → List Term
  | [] => []
  | t :: ts => subterms t ++ subtermsArgs ts

end

theorem subtermsArgs_eq_flatMap (ts : List Term) : subtermsArgs ts = ts.flatMap subterms := by
  induction ts with
  | nil => rfl
  | cons t ts ih => rw [subtermsArgs, List.flatMap_cons, ih]

theorem mem_subterms_self (t : Term) : t ∈ t.subterms := by
  cases t <;> simp [subterms]

/-- The arguments of a subterm are subterms. -/
theorem mem_subterms_of_arg {f : String} {as : List Term} {a t : Term}
    (h : compound f as ∈ t.subterms) (ha : a ∈ as) : a ∈ t.subterms := by
  induction t using induct with
  | var v => simp [subterms] at h
  | atom c => simp [subterms] at h
  | num n => simp [subterms] at h
  | compound g bs ih =>
      rw [subterms, subtermsArgs_eq_flatMap, List.mem_cons, List.mem_flatMap] at h ⊢
      right
      obtain h | ⟨b, hb, h⟩ := h
      · cases h
        exact ⟨a, ha, mem_subterms_self a⟩
      · exact ⟨b, hb, ih b hb h⟩

end Term

namespace Unification

open Relation

theorem length_subterms (t : Term) : t.subterms.length = termSize t := by
  refine Term.rec (motive_1 := fun t => t.subterms.length = termSize t)
    (motive_2 := fun ts => (Term.subtermsArgs ts).length = termSizeArgs ts)
    (fun _ => rfl) (fun _ => rfl) (fun _ => rfl) (fun f args ih => ?_) rfl (fun t ts ih ihs => ?_) t
  · rw [Term.subterms, List.length_cons, ih, termSize]
  · rw [Term.subtermsArgs, List.length_append, ih, ihs, termSizeArgs]

theorem length_subtermsArgs (ts : List Term) :
    (Term.subtermsArgs ts).length = termSizeArgs ts := by
  induction ts with
  | nil => rfl
  | cons t ts ih =>
      rw [Term.subtermsArgs, List.length_append, length_subterms, ih, termSizeArgs]

/-! ### The terms that a run can meet -/

/-- The subterms of two terms and of the values of bindings. -/
def placeList (env : Bindings) (a b : Term) : List Term :=
  a.subterms ++ b.subterms ++ Term.subtermsArgs (env.values.entries.map Prod.snd)

theorem length_placeList (env : Bindings) (a b : Term) :
    (placeList env a b).length = termSize a + termSize b + bindingsSize env := by
  rw [placeList, List.length_append, List.length_append, length_subterms, length_subterms,
    length_subtermsArgs, bindingsSize]

/-- The terms that a run can meet. -/
noncomputable def places (env : Bindings) (a b : Term) : Finset Term := by
  classical exact (placeList env a b).toFinset

theorem mem_places_iff {env : Bindings} {a b t : Term} :
    t ∈ places env a b ↔ t ∈ placeList env a b := by
  simp only [places, List.mem_toFinset]

theorem card_places_le (env : Bindings) (a b : Term) :
    (places env a b).card ≤ termSize a + termSize b + bindingsSize env := by
  classical
  rw [← length_placeList]
  exact List.toFinset_card_le _

theorem left_mem_places (env : Bindings) (a b : Term) : a ∈ places env a b := by
  rw [mem_places_iff, placeList, List.append_assoc]
  exact List.mem_append_left _ a.mem_subterms_self

theorem right_mem_places (env : Bindings) (a b : Term) : b ∈ places env a b := by
  rw [mem_places_iff, placeList]
  exact List.mem_append_left _ (List.mem_append_right _ b.mem_subterms_self)

theorem closed_places (env : Bindings) (a b : Term) : env.Closed (· ∈ places env a b) := by
  constructor
  · intro f as h c hc
    rw [mem_places_iff, placeList, Term.subtermsArgs_eq_flatMap] at h ⊢
    simp only [List.mem_append, List.mem_flatMap] at h ⊢
    obtain (h | h) | ⟨t, ht, h⟩ := h
    · exact .inl (.inl (Term.mem_subterms_of_arg h hc))
    · exact .inl (.inr (Term.mem_subterms_of_arg h hc))
    · exact .inr ⟨t, ht, Term.mem_subterms_of_arg h hc⟩
  · intro v t hv _
    have hm : (v.id, t) ∈ env.values.entries := (env.values.mem_entries_iff v.id t).2 hv
    rw [mem_places_iff, placeList, Term.subtermsArgs_eq_flatMap, List.mem_append, List.mem_flatMap]
    exact .inr ⟨t, List.mem_map.2 ⟨_, hm, rfl⟩, t.mem_subterms_self⟩

/-- The id of a variable. -/
def idOf : Term → UInt64
  | .var v => v.id
  | _ => 0

/-- Bindings made within finitely many terms are not more than these. -/
theorem size_le_of_extends {S : Finset Term} {env env' : Bindings}
    (h : Bindings.Extends (· ∈ S) env env') : env'.size ≤ env.size + S.card := by
  classical
  have hsub : env'.boundIds ⊆ env.boundIds ∪ S.image idOf := by
    induction h with
    | refl => exact Finset.subset_union_left
    | @bind env' w u _ _ hP _ _ ih =>
        intro i hi
        by_cases hiw : i = w.id
        · exact hiw ▸ Finset.mem_union_right _ (Finset.mem_image.2 ⟨.var w, hP, rfl⟩)
        · refine ih (Bindings.mem_boundIds_iff.2 ?_)
          obtain ⟨t, ht⟩ := Bindings.mem_boundIds_iff.1 hi
          exact ⟨t, (Dictionary.find?_insert_of_ne _ _ hiw).symm.trans ht⟩
  calc env'.size = env'.boundIds.card := (Bindings.card_boundIds env').symm
    _ ≤ (env.boundIds ∪ S.image idOf).card := Finset.card_le_card hsub
    _ ≤ env.boundIds.card + (S.image idOf).card := Finset.card_union_le _ _
    _ ≤ env.size + S.card := by
        rw [Bindings.card_boundIds]
        exact Nat.add_le_add_left Finset.card_image_le _

/-! ### Nested states -/

/-- Two terms that are unified under bindings. -/
structure State where
  /-- The bindings. -/
  env : Bindings
  /-- The term on the left. -/
  left : Term
  /-- The term on the right. -/
  right : Term

namespace State

/-- The run of a state within a depth. -/
def run (s : State) (depth : ℕ) : Option Run := unifyWithin depth s.env s.left s.right

/-- What is left of a state if the bindings are only counted. -/
def key (s : State) : ℕ × Term × Term := (s.env.size, s.left, s.right)

end State

/-- A step of the first state unifies what the second says. -/
inductive Calls : State → State → Prop
  | resolved {env : Bindings} {v : Variable} {a : Term} (b : Term) : env.deref (.var v) = a →
      a.isVariable = false → Calls ⟨env, .var v, b⟩ ⟨env, a, b⟩
  | swapped {env : Bindings} {a : Term} (w : Variable) : a.isVariable = false →
      Calls ⟨env, a, .var w⟩ ⟨env, .var w, a⟩
  | argument {env env' : Bindings} {depth : ℕ} {f : String} {as bs : List Term} {a b : Term}
      {ps qs : List (Term × Term)} {events : List Event} : as.length = bs.length →
      as.zip bs = ps ++ (a, b) :: qs →
      unifyPairs (unifyWithin depth) env ps = some ⟨events, some env'⟩ →
      Calls ⟨env, .compound f as, .compound f bs⟩ ⟨env', a, b⟩

/-- The run needs so many levels of steps nested in its first. -/
def Needs (s : State) (d : ℕ) : Prop := s.run d = none ∧ ∃ r, s.run (d + 1) = some r

theorem Needs.unique {s : State} {d e : ℕ} (h : Needs s d) (h' : Needs s e) : d = e := by
  obtain ⟨hd, r, hr⟩ := h
  obtain ⟨he, r', hr'⟩ := h'
  by_contra hne
  obtain hlt | hlt := Nat.lt_or_gt_of_ne hne
  · have := unifyWithin_mono (Nat.succ_le_of_lt hlt) hr
    rw [State.run] at he
    rw [he] at this
    exact nomatch this
  · have := unifyWithin_mono (Nat.succ_le_of_lt hlt) hr'
    rw [State.run] at hd
    rw [hd] at this
    exact nomatch this

theorem exists_needs {s : State} {depth : ℕ} {r : Run} (h : s.run depth = some r) :
    ∃ d, d < depth ∧ Needs s d := by
  induction depth with
  | zero => exact nomatch h
  | succ depth ih =>
      cases hd : s.run depth with
      | none => exact ⟨depth, Nat.lt_succ_self _, hd, r, h⟩
      | some r' =>
          have hr := unifyWithin_succ hd
          rw [State.run, hr] at h
          obtain ⟨d, hlt, hn⟩ := ih (h ▸ hd)
          exact ⟨d, by omega, hn⟩

/-- If pairs can be unified within one more level only, one of them needs that level. -/
theorem exists_pair_needs {d : ℕ} {env : Bindings} {pairs : List (Term × Term)} {r : Run}
    (hn : unifyPairs (unifyWithin d) env pairs = none)
    (hs : unifyPairs (unifyWithin (d + 1)) env pairs = some r) :
    ∃ ps a b qs events env', pairs = ps ++ (a, b) :: qs ∧
      unifyPairs (unifyWithin d) env ps = some ⟨events, some env'⟩ ∧ Needs ⟨env', a, b⟩ d := by
  induction pairs generalizing env r with
  | nil => cases hn
  | cons p pairs ih =>
      obtain ⟨a, b⟩ := p
      rw [unifyPairs] at hn hs
      cases hd : unifyWithin d env a b with
      | none =>
          cases hd' : unifyWithin (d + 1) env a b with
          | none => rw [hd'] at hs; cases hs
          | some s => exact ⟨[], a, b, pairs, [], env, rfl, rfl, hd, s, hd'⟩
      | some s =>
          rw [hd] at hn
          rw [unifyWithin_succ hd] at hs
          obtain ⟨events, _ | env'⟩ := s
          · cases hn
          · obtain ⟨r', hr', -⟩ := Option.map_eq_some_iff.1 hs
            obtain ⟨ps, c, e, qs, events', env'', rfl, hps, hneed⟩ :=
              ih (Option.map_eq_none_iff.1 hn) hr'
            refine ⟨(a, b) :: ps, c, e, qs, events ++ events', env'', rfl, ?_, hneed⟩
            simp only [unifyPairs, hd, hps, Option.map_some, Run.after]

/-- **A run that needs another level has a step that needs the others.** -/
theorem Needs.exists_call {s : State} {d : ℕ} (h : Needs s (d + 1)) :
    ∃ s', Calls s s' ∧ Needs s' d := by
  obtain ⟨env, a, b⟩ := s
  obtain ⟨hn, r, hr⟩ := h
  simp only [State.run] at hn hr
  cases situation env a b with
  | unbound hd => rw [unifyWithin_unbound d hd] at hn; exact nomatch hn
  | resolved hd ha =>
      rw [unifyWithin_resolved _ hd ha] at hn hr
      exact ⟨_, .resolved b hd ha, hn, r, hr⟩
  | @swapped a w ha =>
      rw [unifyWithin_swapped _ ha] at hn hr
      exact ⟨_, .swapped w ha, hn, r, hr⟩
  | atoms a => rw [unifyWithin_atoms] at hn; exact nomatch hn
  | nums hmn => rw [unifyWithin_nums d hmn] at hn; exact nomatch hn
  | compounds hlen =>
      rw [unifyWithin_compounds _ _ hlen] at hn hr
      obtain ⟨ps, a, b, qs, events, env', hz, hps, hneed⟩ := exists_pair_needs hn hr
      exact ⟨_, .argument hlen hz hps, hneed⟩
  | clash ha hb hab =>
      obtain ⟨e, -, he⟩ := unifyWithin_clash d env ha hb hab
      rw [he] at hn
      exact nomatch hn

/-! ### The states of a run -/

/-- What a state calls has the terms of a class that has those of the state, and extends its
bindings within that class. -/
theorem Calls.extends {P : Term → Prop} {s s' : State} (h : Calls s s') (hc : s.env.Closed P)
    (hl : P s.left) (hr : P s.right) :
    Bindings.Extends P s.env s'.env ∧ P s'.left ∧ P s'.right := by
  cases h with
  | resolved b hd _ => exact ⟨.refl, hd ▸ hc.deref hl, hr⟩
  | swapped w _ => exact ⟨.refl, hr, hl⟩
  | @argument env env' depth f as bs a b ps qs events _ hz hps =>
      have hP : ∀ p ∈ as.zip bs, P p.1 ∧ P p.2 := fun p hp =>
        have hm := List.of_mem_zip (a := p.1) (b := p.2) hp
        ⟨hc.args f as hl _ hm.1, hc.args f bs hr _ hm.2⟩
      rw [hz] at hP
      have hab := hP (a, b) (List.mem_append_right _ List.mem_cons_self)
      refine ⟨?_, hab⟩
      exact (extension P).pairs (fun _ _ _ _ h => ⟨depth, h⟩) hps rfl hc fun p hp =>
        hP p (List.mem_append_left _ hp)

theorem extends_of_calls {P : Term → Prop} {s s' : State} (h : ReflTransGen Calls s s')
    (hc : s.env.Closed P) (hl : P s.left) (hr : P s.right) :
    Bindings.Extends P s.env s'.env ∧ P s'.left ∧ P s'.right := by
  induction h with
  | refl => exact ⟨.refl, hl, hr⟩
  | tail _ hcall ih =>
      obtain ⟨he, hl', hr'⟩ := ih
      obtain ⟨he', hlr⟩ := hcall.extends (he.closed hc) hl' hr'
      exact ⟨he.trans he', hlr⟩

/-- A nested state with as many bindings and the same terms is the same state. -/
theorem eq_of_calls_of_key {s s' : State} (h : ReflTransGen Calls s s') (hk : s'.key = s.key) :
    s' = s := by
  obtain ⟨he, -⟩ := extends_of_calls h (Bindings.closed_true s.env) trivial trivial
  obtain ⟨env, a, b⟩ := s
  obtain ⟨env', a', b'⟩ := s'
  simp only [State.key, Prod.mk.injEq] at hk
  obtain ⟨hs, rfl, rfl⟩ := hk
  cases he.eq_of_size hs
  rfl

/-- **A run meets as many states as it needs levels**, even if bindings are only counted. -/
theorem Needs.exists_keys {s : State} {d : ℕ} (h : Needs s d) :
    ∃ K : Finset (ℕ × Term × Term), K.card = d + 1 ∧
      ∀ k ∈ K, ∃ s', ReflTransGen Calls s s' ∧ s'.key = k ∧ ∃ e ≤ d, Needs s' e := by
  classical
  induction d generalizing s with
  | zero =>
      refine ⟨{s.key}, Finset.card_singleton _, fun k hk => ?_⟩
      exact ⟨s, .refl, (Finset.mem_singleton.1 hk).symm, 0, le_refl 0, h⟩
  | succ d ih =>
      obtain ⟨s₁, hcall, hneed⟩ := h.exists_call
      obtain ⟨K, hcard, hK⟩ := ih hneed
      -- the state itself needs more levels than any that is nested in it, so its key is new
      have hnew : s.key ∉ K := by
        intro hk
        obtain ⟨s', hs', hkey, e, hle, he⟩ := hK _ hk
        cases eq_of_calls_of_key (hs'.head hcall) hkey
        have := h.unique he
        omega
      refine ⟨insert s.key K, by rw [Finset.card_insert_of_notMem hnew, hcard], fun k hk => ?_⟩
      obtain rfl | hk := Finset.mem_insert.1 hk
      · exact ⟨s, .refl, rfl, d + 1, le_refl _, h⟩
      · obtain ⟨s', hs', hkey, e, hle, he⟩ := hK k hk
        exact ⟨s', hs'.head hcall, hkey, e, by omega, he⟩

/-- No run needs more levels than there are keys for its states. -/
theorem Needs.lt_depthBound {env : Bindings} {a b : Term} {d : ℕ} (h : Needs ⟨env, a, b⟩ d) :
    d < depthBound env a b := by
  classical
  obtain ⟨K, hcard, hK⟩ := h.exists_keys
  have ha := left_mem_places env a b
  have hb := right_mem_places env a b
  have hN := card_places_le env a b
  generalize hS : places env a b = S at ha hb hN
  have hsub : K ⊆ Finset.range (env.size + S.card + 1) ×ˢ (S ×ˢ S) := by
    intro k hk
    obtain ⟨s', hs', rfl, -⟩ := hK k hk
    obtain ⟨he, hl, hr⟩ := extends_of_calls hs' (hS ▸ closed_places env a b) ha hb
    have hsize : s'.env.size ≤ env.size + S.card := size_le_of_extends he
    simp only [State.key, Finset.mem_product, Finset.mem_range]
    exact ⟨by omega, hl, hr⟩
  have hle := Finset.card_le_card hsub
  rw [hcard, Finset.card_product, Finset.card_product, Finset.card_range] at hle
  generalize hM : termSize a + termSize b + bindingsSize env + env.size + 1 = M
  calc d < (env.size + S.card + 1) * (S.card * S.card) := by omega
    _ ≤ M * (M * M) := Nat.mul_le_mul (by omega) (Nat.mul_le_mul (by omega) (by omega))
    _ = depthBound env a b := by rw [depthBound, hM]; ring

/-- **`unify` ends exactly if the run does**, whatever depth the run may need. -/
theorem unify_eq_some_iff {env : Bindings} {a b : Term} {r : Run} :
    unify env a b = some r ↔ ∃ depth, unifyWithin depth env a b = some r := by
  constructor
  · intro h
    exact ⟨_, h⟩
  · rintro ⟨depth, h⟩
    obtain ⟨d, -, hd⟩ := exists_needs (s := ⟨env, a, b⟩) h
    obtain ⟨r', hr'⟩ := hd.2
    have hmax := unifyWithin_mono (Nat.le_max_left depth (d + 1)) h
    rw [unifyWithin_mono (Nat.le_max_right depth (d + 1)) hr'] at hmax
    cases hmax
    exact unifyWithin_mono hd.lt_depthBound hr'

end Unification

end LogicTerms
