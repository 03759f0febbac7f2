/-
**Lists are taken apart as they are put together.**

A list is built from its end, one cell around the rest at a time, and taken apart from its front,
one cell after another until something is found that is none.  The second undoes the first and the
first the second, so items and a tail determine a term and the term determines them, except that it
does not tell where in a row of cells the tail began: what is found is as many items as there are
cells, and the cells of the tail count as well.

Nothing has to be known of the items, which may be lists themselves, and little of the tail.  A
compound of the list functor is a cell only if it has two arguments; with any other number of them
it is a tail like a variable or a number.

Main definitions:

* `Term.IsCell` — a list cell;
* `Term.code?` — the character whose code a term is.

Main results:

* `Term.listWithTail_spine` — putting together what was taken apart;
* `Term.not_isCell_spine` — nothing is left to take apart;
* `Term.listItems?_eq_some_iff` — **the items and the tail of a term**, by what they build;
* `Term.listItems?_eq_none_iff` — the terms without any;
* `Term.lists_decompose` — **lists decompose as they were built**.
-/

import LogicTerms.Term.Expect
import Mathlib.Data.List.Basic

set_option relaxedAutoImplicit false
set_option autoImplicit false

namespace LogicTerms.Term

variable {t tail : Term} {items : List Term}

/-! ### Cells -/

/-- A list cell: a compound of the functor `.` with two arguments. -/
def IsCell (t : Term) : Prop := ∃ args, t = compound "." args ∧ args.length = 2

theorem isCell_cons (item rest : Term) : (cons item rest).IsCell := ⟨[item, rest], rfl, rfl⟩

theorem isCell_iff : t.IsCell ↔ ∃ item rest, t = cons item rest := by
  constructor
  · rintro ⟨args, rfl, hargs⟩
    obtain ⟨item, rest, rfl⟩ := List.length_eq_two.1 hargs
    exact ⟨item, rest, rfl⟩
  · rintro ⟨item, rest, rfl⟩
    exact isCell_cons item rest

theorem isNil_iff : t.isNil = true ↔ t = nil := by
  cases t <;> simp [isNil, nil]

/-! ### Taking apart and putting together -/

/-- What is no cell has no items. -/
theorem spine_of_not_isCell (h : ¬ t.IsCell) : t.spine = ([], t) := by
  fun_cases spine t with
  | case1 item rest s => exact absurd (isCell_cons item rest) h
  | case2 => rfl
  | case3 => rfl

/-- **Putting together what was taken apart** gives the same term. -/
theorem listWithTail_spine (t : Term) : listWithTail t.spine.1 t.spine.2 = t := by
  fun_induction spine t with
  | case1 item rest s ih => exact congrArg (cons item) ih
  | case2 => rfl
  | case3 => rfl

/-- Nothing is left to take apart. -/
theorem not_isCell_spine (t : Term) : ¬ t.spine.2.IsCell := by
  fun_induction spine t with
  | case1 item rest s ih => exact ih
  | case2 f item rest hf =>
      rintro ⟨args, hargs, -⟩
      exact hf (compound.inj hargs).1
  | case3 t hcell =>
      intro h
      obtain ⟨item, rest, rfl⟩ := isCell_iff.1 h
      exact hcell _ item rest rfl

/-! ### Lists -/

theorem listItems?_eq_spine (h : t.spine.1 ≠ [] ∨ t.spine.2 = nil) :
    listItems? t = some t.spine := by
  have hcond : ¬ (t.spine.1.isEmpty && !t.spine.2.isNil) = true := by
    rcases h with h | h
    · simp [h]
    · simp [isNil_iff.2 h]
  rw [listItems?]
  exact if_neg hcond

/-- A term has items and a tail if it has a cell or is the empty list. -/
theorem listItems?_eq_some_spine_iff :
    listItems? t = some (items, tail) ↔
      t.spine = (items, tail) ∧ (items = [] → tail = nil) := by
  constructor
  · intro h
    rw [listItems?] at h
    split at h
    · exact nomatch h
    · rename_i hcond
      have hspine : t.spine = (items, tail) := Option.some.inj h
      refine ⟨hspine, fun hempty => ?_⟩
      simpa [hspine, hempty, isNil_iff] using hcond
  · rintro ⟨hspine, hnil⟩
    rw [listItems?_eq_spine, hspine]
    rw [hspine]
    exact (em (items = [])).symm.imp_right hnil

/-- **The items and the tail of a term** are those that build it, the tail being no cell, and the
empty list if there are no items. -/
theorem listItems?_eq_some_iff :
    listItems? t = some (items, tail) ↔
      listWithTail items tail = t ∧ ¬ tail.IsCell ∧ (items = [] → tail = nil) := by
  rw [listItems?_eq_some_spine_iff, ← and_assoc, and_congr_left_iff]
  intro _
  constructor
  · intro h
    have hback := listWithTail_spine t
    have hcell := not_isCell_spine t
    rw [h] at hback hcell
    exact ⟨hback, hcell⟩
  · rintro ⟨rfl, hcell⟩
    rw [spine_listWithTail, spine_of_not_isCell hcell, List.append_nil]

/-- **The terms without items and tail** are those that are neither a cell nor the empty list. -/
theorem listItems?_eq_none_iff : listItems? t = none ↔ ¬ t.IsCell ∧ t ≠ nil := by
  constructor
  · intro h
    have hspine : ¬ (t.spine.1 ≠ [] ∨ t.spine.2 = nil) := by
      intro hsome
      rw [listItems?_eq_spine hsome] at h
      exact nomatch h
    obtain ⟨hitems, hnil⟩ := not_or.1 hspine
    have hback := listWithTail_spine t
    have hcell := not_isCell_spine t
    rw [not_not.1 hitems] at hback
    have htail : t.spine.2 = t := hback
    rw [htail] at hcell hnil
    exact ⟨hcell, hnil⟩
  · rintro ⟨hcell, hnil⟩
    refine Option.eq_none_iff_forall_ne_some.2 fun ⟨items, tail⟩ h => ?_
    obtain ⟨hspine, hempty⟩ := listItems?_eq_some_spine_iff.1 h
    rw [spine_of_not_isCell hcell] at hspine
    cases hspine
    exact hnil (hempty rfl)

/-- Items in front of a list come before its own. -/
theorem listItems?_listWithTail {items' : List Term} {tail' : Term}
    (h : listItems? tail = some (items', tail')) :
    listItems? (listWithTail items tail) = some (items ++ items', tail') := by
  obtain ⟨hspine, hnil⟩ := listItems?_eq_some_spine_iff.1 h
  refine listItems?_eq_some_spine_iff.2 ⟨?_, fun hempty => hnil (List.append_eq_nil_iff.1 hempty).2⟩
  rw [spine_listWithTail, hspine]

/-! ### Codes -/

/-- The character whose code a term is, if it is a number and a code. -/
def code? (t : Term) : Option Char := t.expectNumber.toOption.bind Number.toChar?

theorem code?_ofChar (c : Char) : (num (.ofChar c)).code? = some c := Number.toChar?_ofChar c

/-- The codes of a text are a list, and spell the text. -/
theorem exists_listItems?_codes (text : String) :
    ∃ items, listItems? (codes text) = some (items, nil) ∧
      items.map code? = text.toList.map some := by
  refine ⟨text.toList.map fun c => num (.ofChar c), ?_, ?_⟩
  · have hnil : ¬ nil.IsCell := by
      rintro ⟨args, hargs, -⟩
      exact nomatch hargs
    exact listItems?_eq_some_iff.2 ⟨rfl, hnil, fun _ => rfl⟩
  · rw [List.map_map]
    exact List.map_congr_left fun c _ => code?_ofChar c

/-- **Lists decompose as they were built.**  Items in front of a tail that has items are found in
front of these, with the tail's own tail; in front of a tail that is neither a cell nor the empty
list they are found as they are, and without any items nothing is found.  What is found in a term
is no other than what builds it: the tail is no cell, and the items in front of the tail are the
term itself.  Something is found exactly in the cells and in the empty list; and in the list of a
text's codes the items are codes that spell the text. -/
theorem lists_decompose :
    (∀ (items : List Term) (tail : Term),
      (∀ items' tail', listItems? tail = some (items', tail') →
        listItems? (listWithTail items tail) = some (items ++ items', tail')) ∧
      (¬ tail.IsCell → tail ≠ nil → listItems? (listWithTail items tail) =
        if items = [] then none else some (items, tail))) ∧
    (∀ (t : Term) (items : List Term) (tail : Term), listItems? t = some (items, tail) ↔
      listWithTail items tail = t ∧ ¬ tail.IsCell ∧ (items = [] → tail = nil)) ∧
    (∀ t : Term, listItems? t = none ↔ ¬ t.IsCell ∧ t ≠ nil) ∧
    ∀ text : String, ∃ items, listItems? (codes text) = some (items, nil) ∧
      items.map code? = text.toList.map some := by
  refine ⟨fun items tail => ⟨fun _ _ => listItems?_listWithTail, fun hcell hnil => ?_⟩,
    fun _ _ _ => listItems?_eq_some_iff, fun _ => listItems?_eq_none_iff, exists_listItems?_codes⟩
  split
  · rename_i hempty
    exact hempty ▸ listItems?_eq_none_iff.2 ⟨hcell, hnil⟩
  · rename_i hne
    exact listItems?_eq_some_iff.2 ⟨rfl, hcell, fun hempty => absurd hempty hne⟩

/-- Behind an empty list as an item, a list that ends in a compound of the list functor with one
argument; that compound by itself has no items. -/
theorem lists_decompose_improper :
    listItems? (listWithTail [nil] (cons (atom "a") (compound "." [atom "b"]))) =
        some ([nil, atom "a"], compound "." [atom "b"]) ∧
      listItems? (compound "." [atom "b"]) = none ∧
      listWithTail [nil, atom "a"] (compound "." [atom "b"]) =
        cons nil (cons (atom "a") (compound "." [atom "b"])) := by
  obtain ⟨hbuilt, hparts, -, -⟩ := lists_decompose
  have hcell : ¬ (compound "." [atom "b"]).IsCell := by
    rintro ⟨args, hargs, hlength⟩
    cases hargs
    exact nomatch hlength
  have htail : listItems? (cons (atom "a") (compound "." [atom "b"])) =
      some ([atom "a"], compound "." [atom "b"]) :=
    ((hbuilt [atom "a"] _).2 hcell nofun).trans (if_neg (List.cons_ne_nil _ _))
  have hlist := (hbuilt [nil] _).1 _ _ htail
  exact ⟨hlist, ((hbuilt [] _).2 hcell nofun).trans (if_pos rfl), ((hparts _ _ _).1 hlist).1⟩

end LogicTerms.Term
