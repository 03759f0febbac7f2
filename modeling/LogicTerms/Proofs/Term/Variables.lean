/-
**The variables of a term are listed once each.**

The list of the variables of a term is made in a walk over the term, from left to right, which hands
on what it has met from one argument to the next.  A variable is known by its id alone.  It may occur
any number of times, and it may be written with another name at every place, so that the walk could
list it twice, or by a name that it has later.  It does neither.  Each id of the walk is listed once;
the ids are in the order in which the walk comes to them for the first time, and each has the name
that it has there.  No other list is like that.

So the list tells what bindings can do to the term.  A term without variables is ground, and a term
is its own expansion exactly if no variable in its list is bound.

Main definitions:

* `Variable.firstPlace` — where a walk comes to an id for the first time;
* `Variable.Lists` — a list of the variables on a walk.

Main results:

* `Variable.Lists.mem_iff` — the listed variables are those at first places;
* `Variable.Lists.unique` — **a walk has only one list**;
* `Variable.Lists.note`, `Variable.Lists.foldl` — one more variable is met, and any number of them;
* `Term.collect_eq_foldl` — collecting the variables of a term is meeting its occurrences in order;
* `Bindings.expand_eq_self_iff` — **the terms that bindings leave as they are**;
* `Term.vars_list_occurrences` — **the variables of a term**, by its occurrences.
-/

import LogicTerms.Proofs.Bindings.Refinement
import LogicTerms.Proofs.Bindings.Expansion

set_option relaxedAutoImplicit false
set_option autoImplicit false

namespace LogicTerms

/-! ### Lists of the variables on a walk -/

namespace Variable

variable {vs us walk : List Variable} {v : Variable} {i : UInt64}

/-- Where the walk comes to the id for the first time; its length if it never does. -/
def firstPlace (walk : List Variable) (i : UInt64) : ℕ := walk.findIdx (·.id == i)

/-- The walk comes to the id. -/
def Meets (walk : List Variable) (i : UInt64) : Prop := ∃ w ∈ walk, w.id = i

/-- The first list has the variables on the walk, as the walk first comes to them. -/
structure Lists (vs walk : List Variable) : Prop where
  /-- No id is listed twice. -/
  distinct : (vs.map (·.id)).Nodup
  /-- The ids that are listed are those that the walk comes to. -/
  exact : ∀ i, Meets vs i ↔ Meets walk i
  /-- What is listed, its name included, is what the walk first comes to. -/
  first : ∀ v ∈ vs, walk[firstPlace walk v.id]? = some v
  /-- What the walk first comes to earlier is listed earlier. -/
  ordered : vs.Pairwise fun v w => firstPlace walk v.id < firstPlace walk w.id

theorem meets_append_singleton_iff : Meets (walk ++ [v]) i ↔ Meets walk i ∨ v.id = i := by
  simp [Meets, or_and_right, exists_or]

theorem firstPlace_lt_iff : firstPlace walk i < walk.length ↔ Meets walk i := by
  simp [firstPlace, Meets, List.findIdx_lt_length]

/-- The first place of an id stays what it is when the walk goes on. -/
theorem firstPlace_append (more : List Variable) (h : Meets walk i) :
    firstPlace (walk ++ more) i = firstPlace walk i := by
  have hlt := firstPlace_lt_iff.2 h
  rw [firstPlace, List.findIdx_append]
  exact if_pos hlt

/-- An id that the walk has not come to has its first place where it is met. -/
theorem firstPlace_append_self (h : ¬ Meets walk v.id) :
    firstPlace (walk ++ [v]) v.id = walk.length := by
  have hge : ¬ firstPlace walk v.id < walk.length := fun hlt => h (firstPlace_lt_iff.1 hlt)
  rw [firstPlace, List.findIdx_append]
  refine (if_neg hge).trans ?_
  simp

theorem note_of_meets (h : Meets vs v.id) : note vs v = vs := by
  have hany : vs.any (·.id == v.id) = true := by simpa [Meets] using h
  exact if_pos hany

theorem note_of_not_meets (h : ¬ Meets vs v.id) : note vs v = vs ++ [v] := by
  have hany : ¬ vs.any (·.id == v.id) = true := by simpa [Meets] using h
  exact if_neg hany

namespace Lists

theorem nil : Lists [] [] where
  distinct := List.nodup_nil
  exact _ := Iff.rfl
  first _ hv := nomatch hv
  ordered := .nil

/-- **The listed variables** are those at the first places of their ids. -/
theorem mem_iff (h : Lists vs walk) : v ∈ vs ↔ walk[firstPlace walk v.id]? = some v := by
  constructor
  · exact h.first v
  · intro hv
    obtain ⟨u, hu, hid⟩ := (h.exact v.id).2 ⟨v, List.mem_of_getElem? hv, rfl⟩
    have hfirst := h.first u hu
    rw [hid, hv] at hfirst
    exact Option.some.inj hfirst ▸ hu

/-- **A walk has only one list** of its variables. -/
theorem unique (h : Lists vs walk) (h' : Lists us walk) : vs = us := by
  have hperm : vs.Perm us :=
    (List.perm_ext_iff_of_nodup (List.Nodup.of_map _ h.distinct)
      (List.Nodup.of_map _ h'.distinct)).2 fun _ => h.mem_iff.trans h'.mem_iff.symm
  refine hperm.eq_of_pairwise (fun v w _ _ hvw hwv => ?_) h.ordered h'.ordered
  exact absurd hwv (lt_asymm hvw)

theorem eq_nil_iff (h : Lists vs walk) : vs = [] ↔ walk = [] := by
  simp only [List.eq_nil_iff_forall_not_mem]
  constructor
  · intro hvs w hw
    obtain ⟨v, hv, -⟩ := (h.exact w.id).2 ⟨w, hw, rfl⟩
    exact hvs v hv
  · intro hwalk v hv
    obtain ⟨w, hw, -⟩ := (h.exact v.id).1 ⟨v, hv, rfl⟩
    exact hwalk w hw

/-- What holds of a variable by its id holds of the listed ones if it does on the walk. -/
theorem forall_iff (h : Lists vs walk) (P : UInt64 → Prop) :
    (∀ v ∈ vs, P v.id) ↔ ∀ w ∈ walk, P w.id := by
  constructor
  · intro hvs w hw
    obtain ⟨v, hv, hid⟩ := (h.exact w.id).2 ⟨w, hw, rfl⟩
    exact hid ▸ hvs v hv
  · intro hwalk v hv
    obtain ⟨w, hw, hid⟩ := (h.exact v.id).1 ⟨v, hv, rfl⟩
    exact hid ▸ hwalk w hw

/-- What is listed stays what the walk first comes to when it goes on. -/
theorem first_append (h : Lists vs walk) (more : List Variable) :
    ∀ u ∈ vs, (walk ++ more)[firstPlace (walk ++ more) u.id]? = some u := by
  intro u hu
  have hmeets : Meets walk u.id := (h.exact u.id).1 ⟨u, hu, rfl⟩
  rw [firstPlace_append more hmeets, List.getElem?_append_left (firstPlace_lt_iff.2 hmeets)]
  exact h.first u hu

/-- The order of what is listed stays that of first places when the walk goes on. -/
theorem ordered_append (h : Lists vs walk) (more : List Variable) :
    vs.Pairwise fun u w => firstPlace (walk ++ more) u.id < firstPlace (walk ++ more) w.id := by
  refine h.ordered.imp_of_mem fun {u w} hu hw hlt => ?_
  rwa [firstPlace_append more ((h.exact u.id).1 ⟨u, hu, rfl⟩),
    firstPlace_append more ((h.exact w.id).1 ⟨w, hw, rfl⟩)]

/-- A variable whose id is listed is not listed again. -/
theorem skip (h : Lists vs walk) (hv : Meets vs v.id) : Lists vs (walk ++ [v]) where
  distinct := h.distinct
  exact i := by
    rw [h.exact, meets_append_singleton_iff]
    refine (or_iff_left_of_imp ?_).symm
    rintro rfl
    exact (h.exact v.id).1 hv
  first := h.first_append [v]
  ordered := h.ordered_append [v]

/-- A variable whose id is not listed comes last. -/
theorem add (h : Lists vs walk) (hv : ¬ Meets vs v.id) : Lists (vs ++ [v]) (walk ++ [v]) := by
  have hplace : firstPlace (walk ++ [v]) v.id = walk.length :=
    firstPlace_append_self fun hwalk => hv ((h.exact v.id).2 hwalk)
  refine ⟨?_, fun i => ?_, fun u hu => ?_, ?_⟩
  · rw [List.map_append, List.nodup_append]
    refine ⟨h.distinct, List.nodup_singleton _, ?_⟩
    rintro _ hu _ hw rfl
    obtain ⟨u, hu, hid⟩ := List.mem_map.1 hu
    exact hv ⟨u, hu, hid.trans (List.mem_singleton.1 hw)⟩
  · rw [meets_append_singleton_iff, meets_append_singleton_iff, h.exact]
  · obtain hu | hu := List.mem_append.1 hu
    · exact h.first_append [v] u hu
    · rw [List.mem_singleton.1 hu, hplace, List.getElem?_concat_length]
  · refine List.pairwise_append.2 ⟨h.ordered_append [v], List.pairwise_singleton _ _, ?_⟩
    intro u hu w hw
    have hmeets : Meets walk u.id := (h.exact u.id).1 ⟨u, hu, rfl⟩
    rw [List.mem_singleton.1 hw, hplace, firstPlace_append [v] hmeets]
    exact firstPlace_lt_iff.2 hmeets

/-- **One more variable is met.** -/
theorem note (h : Lists vs walk) (v : Variable) : Lists (Variable.note vs v) (walk ++ [v]) := by
  by_cases hv : Meets vs v.id
  · rw [note_of_meets hv]
    exact h.skip hv
  · rw [note_of_not_meets hv]
    exact h.add hv

/-- **Any number of variables are met**, one after another. -/
theorem foldl (h : Lists vs walk) (more : List Variable) :
    Lists (more.foldl Variable.note vs) (walk ++ more) := by
  induction more generalizing vs walk with
  | nil => rwa [List.append_nil]
  | cons v more ih =>
      rw [List.foldl_cons, List.append_cons]
      exact ih (h.note v)

end Lists

/-- The first of the variables with each id are a list of them all. -/
theorem lists_distinct (walk : List Variable) : Lists (distinct walk) walk := Lists.nil.foldl walk

end Variable

/-! ### Terms -/

namespace Term

variable {t : Term}

/-- **Collecting the variables of a term** is meeting its occurrences in order. -/
theorem collect_eq_foldl (met : List Variable) (t : Term) :
    collect met t = t.occurrences.foldl Variable.note met := by
  induction t using induct generalizing met with
  | var v => rfl
  | atom a => rfl
  | num n => rfl
  | compound f args ih =>
      rw [collect, collectArgs_eq_foldl, occurrences, occurrencesArgs_eq_flatMap,
        List.foldl_flatMap]
      exact List.foldl_ext _ _ _ fun met t ht => ih t ht met

theorem vars_eq_distinct (t : Term) : t.vars = Variable.distinct t.occurrences :=
  collect_eq_foldl [] t

/-- A substitution changes nothing in a term exactly if it leaves the variables. -/
theorem subst_eq_self_iff {σ : Variable → Term} :
    t.subst σ = t ↔ ∀ w ∈ t.occurrences, σ w = .var w := by
  refine ⟨fun h => ?_, subst_eq_self⟩
  induction t using induct with
  | var v =>
      intro w hw
      rw [List.mem_singleton.1 hw]
      exact h
  | atom a => exact fun w hw => nomatch hw
  | num n => exact fun w hw => nomatch hw
  | compound f args ih =>
      rw [subst, substArgs_eq_map, compound.injEq] at h
      have hargs : ∀ a ∈ args, a.subst σ = a := by
        rw [← List.map_inj_left, List.map_id']
        exact h.2
      intro w hw
      obtain ⟨a, ha, hw⟩ := mem_occurrences_compound_iff.1 hw
      exact ih a ha (hargs a ha) w hw

end Term

namespace Bindings

variable {env : Bindings} {t : Term}

/-- A variable is its own expansion exactly if it is unbound. -/
theorem expand_var_eq_self_iff (hc : env.NoAliasCycle) {v : Variable} :
    env.expand (.var v) = .var v ↔ env.find? v = none := by
  refine ⟨fun h => ?_, expand_of_unbound⟩
  have hexpands := (expands_nil_iff hc).2 h.symm
  cases hexpands with
  | inside hv => exact nomatch hv
  | unbound _ _ hv => exact hv
  | value _ _ ht hexpands =>
      -- nothing but a variable becomes a variable
      cases hexpands <;> exact nomatch ht

/-- **The terms that bindings leave as they are** are those without bound variables. -/
theorem expand_eq_self_iff (hc : env.NoAliasCycle) :
    env.expand t = t ↔ ∀ w ∈ t.occurrences, env.find? w = none :=
  Term.subst_eq_self_iff.trans (forall₂_congr fun _ _ => expand_var_eq_self_iff hc)

end Bindings

namespace Term

/-- **The variables of a term.**  They are the one list that has each id which occurs in the term
once, in the order in which a walk from left to right comes to the ids for the first time, with the
names that they have there.  The term is ground exactly if the list is empty; and under bindings
without a cycle of variables, it is its own expansion exactly if none of the list is bound. -/
theorem vars_list_occurrences (t : Term) :
    (∀ vs, t.vars = vs ↔ Variable.Lists vs t.occurrences) ∧
      (t.isGround = true ↔ t.vars = []) ∧
      ∀ env : Bindings, env.NoAliasCycle →
        (env.expand t = t ↔ ∀ v ∈ t.vars, env.find? v = none) := by
  have hlists : Variable.Lists t.vars t.occurrences :=
    t.vars_eq_distinct ▸ Variable.lists_distinct t.occurrences
  refine ⟨fun vs => ⟨fun h => h ▸ hlists, hlists.unique⟩, ?_, fun env hc => ?_⟩
  · rw [hlists.eq_nil_iff, occurrences_eq_nil_iff]
  · rw [Bindings.expand_eq_self_iff hc]
    exact (hlists.forall_iff fun i => env.values.find? i = none).symm

/-- Two variables, each with another name at its second place, which is not the one that is listed.
The term stays as it is under bindings of two other variables, of which one occurs in its own value
and one is bound to a variable of the term; these two are replaced. -/
theorem vars_list_occurrences_renamed :
    ∃ t : Term, t.occurrences = [⟨"X", 1⟩, ⟨"Y", 2⟩, ⟨"Z", 1⟩, ⟨"V", 2⟩] ∧
      t.vars = [⟨"X", 1⟩, ⟨"Y", 2⟩] ∧
      ¬ Variable.Lists [⟨"Z", 1⟩, ⟨"Y", 2⟩] t.occurrences ∧
      ∃ env : Bindings, env.NoAliasCycle ∧ env.expand t = t ∧
        env.expand (var ⟨"U", 3⟩) ≠ var ⟨"U", 3⟩ ∧ env.expand (var ⟨"W", 4⟩) ≠ var ⟨"W", 4⟩ := by
  have hU : (Bindings.empty.assign ⟨"U", 3⟩ (compound "f" [var ⟨"U", 3⟩])).NoAliasCycle :=
    Bindings.noAliasCycle_empty.assign rfl (by rintro w ⟨⟩)
  have hUW := hU.assign (v := ⟨"W", 4⟩) (t := var ⟨"X", 1⟩) rfl (by rintro w ⟨⟩; decide)
  obtain ⟨hlist, -, hexpand⟩ := vars_list_occurrences (compound "f"
    [var ⟨"X", 1⟩, compound "g" [var ⟨"Y", 2⟩, var ⟨"Z", 1⟩], num (.int 1), var ⟨"V", 2⟩])
  obtain ⟨-, -, hexpandU⟩ := vars_list_occurrences (var ⟨"U", 3⟩)
  obtain ⟨-, -, hexpandW⟩ := vars_list_occurrences (var ⟨"W", 4⟩)
  refine ⟨_, rfl, rfl, (hlist _).not.1 (by decide), _, hUW, (hexpand _ hUW).2 (by decide),
    (hexpandU _ hUW).not.2 (by decide), (hexpandW _ hUW).not.2 (by decide)⟩

end Term

end LogicTerms
