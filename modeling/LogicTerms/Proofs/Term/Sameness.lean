/-
**The same term.**

Two terms are the same if they differ in the names of variables and in the signs of zero doubles at
most: variables are known by their ids, and the two zeros are one value.  So a term has a canonical
form, in which variables have no names and zeros no signs, and the same terms are those with one
canonical form.

Equality of terms asks for a little more: since a NaN equals nothing, a term equals the terms that
are the same if no NaN occurs in it, and no term at all otherwise.

Main definitions:

* `Number.unsignZero` — the number without the sign of a zero;
* `Term.canonical`, `Term.Same` — the canonical form, and the same terms;
* `Term.Ordered` — no NaN occurs in the term.

Main results:

* `Term.same_compound_iff` — compounds are the same argument by argument;
* `Term.equal_iff` — **equality is being the same without a NaN**;
* `Term.equal_iff_same` — so the two agree on terms without a NaN.
-/

import LogicTerms.Term.Basic
import Mathlib.Data.List.Forall2

set_option relaxedAutoImplicit false
set_option autoImplicit false

namespace LogicTerms

/-! ### Doubles and numbers -/

namespace Binary64

/-- The double, with `+0.0` in place of `-0.0`. -/
def unsignZero (x : Binary64) : Binary64 := if x.isZero then zero false else x

theorem unsignZero_eq_iff {x y : Binary64} :
    x.unsignZero = y.unsignZero ↔ x.rank = y.rank := by
  obtain ⟨s, m, hm⟩ := x
  obtain ⟨t, n, hn⟩ := y
  simp only [unsignZero, isZero, zero, rank, beq_iff_eq]
  -- a rank of zero belongs to both zeros, any other rank to one double
  by_cases h₁ : m = 0 <;> by_cases h₂ : n = 0 <;> cases s <;> cases t <;>
    simp [h₁, h₂, mk.injEq] <;> omega

theorem isNaN_eq_of_rank {x y : Binary64} (h : x.rank = y.rank) : x.isNaN = y.isNaN := by
  obtain ⟨s, m, hm⟩ := x
  obtain ⟨t, n, hn⟩ := y
  have hmn : m = n := by
    cases s <;> cases t <;> simp only [rank, if_true, if_false, Bool.false_eq_true] at h <;> omega
  simp only [isNaN, hmn]

theorem isNaN_unsignZero (x : Binary64) : x.unsignZero.isNaN = x.isNaN := by
  refine isNaN_eq_of_rank (unsignZero_eq_iff.1 ?_)
  by_cases h : x.isZero = true
  · simp only [unsignZero, h, if_true]
    rfl
  · simp only [unsignZero, if_neg h]

theorem equal_eq_true_iff {x y : Binary64} :
    x.equal y = true ↔ x.unsignZero = y.unsignZero ∧ x.isNaN = false := by
  rw [equal, unsignZero_eq_iff, Bool.and_eq_true, Bool.and_eq_true, beq_iff_eq, Bool.not_eq_true',
    Bool.not_eq_true']
  constructor
  · rintro ⟨⟨hx, -⟩, hr⟩
    exact ⟨hr, hx⟩
  · rintro ⟨hr, hx⟩
    exact ⟨⟨hx, isNaN_eq_of_rank hr ▸ hx⟩, hr⟩

end Binary64

namespace Number

/-- The number, without the sign if it is a zero double. -/
def unsignZero : Number → Number
  | float x => float x.unsignZero
  | n => n

theorem equal_eq_true_iff {m n : Number} :
    m.equal n = true ↔ m.unsignZero = n.unsignZero ∧ m.IsOrdered := by
  cases m <;> cases n <;>
    simp [equal, unsignZero, IsOrdered, Binary64.equal_eq_true_iff]

theorem isOrdered_unsignZero_iff {n : Number} : n.unsignZero.IsOrdered ↔ n.IsOrdered := by
  cases n with
  | float x => rw [unsignZero, IsOrdered, IsOrdered, Binary64.isNaN_unsignZero]
  | _ => rfl

end Number

namespace Term

/-! ### Canonical forms -/

mutual

/-- The term without the names of variables and the signs of zeros. -/
def canonical : Term → Term
  | var v => var ⟨"", v.id⟩
  | atom a => atom a
  | num n => num n.unsignZero
  | compound f args => compound f (canonicalArgs args)

/-- The terms without the names of variables and the signs of zeros. -/
def canonicalArgs : List Term → List Term
  | [] => []
  | t :: ts => canonical t :: canonicalArgs ts

end

@[simp] theorem canonicalArgs_eq_map (ts : List Term) : canonicalArgs ts = ts.map canonical := by
  induction ts with
  | nil => rfl
  | cons t ts ih => rw [canonicalArgs, ih, List.map_cons]

/-- The terms differ in the names of variables and in the signs of zeros at most. -/
def Same (t u : Term) : Prop := t.canonical = u.canonical

theorem Same.refl (t : Term) : t.Same t := rfl

theorem Same.symm {t u : Term} (h : t.Same u) : u.Same t := Eq.symm h

theorem Same.trans {t u s : Term} (h : t.Same u) (h' : u.Same s) : t.Same s := Eq.trans h h'

@[simp] theorem same_var_iff {v w : Variable} : (var v).Same (var w) ↔ v.id = w.id := by
  simp [Same, canonical]

@[simp] theorem same_atom_iff {a b : String} : (atom a).Same (atom b) ↔ a = b := by
  simp [Same, canonical]

@[simp] theorem same_num_iff {m n : Number} :
    (num m).Same (num n) ↔ m.unsignZero = n.unsignZero := by
  simp [Same, canonical]

/-- Compounds are the same argument by argument. -/
theorem same_compound_iff {f g : String} {as bs : List Term} :
    (compound f as).Same (compound g bs) ↔ f = g ∧ List.Forall₂ Same as bs := by
  rw [Same, canonical, canonical, compound.injEq, canonicalArgs_eq_map, canonicalArgs_eq_map,
    ← List.forall₂_eq_eq_eq, List.forall₂_map_left_iff, List.forall₂_map_right_iff]
  rfl

/-! ### Terms without a NaN -/

mutual

/-- No NaN occurs in the term. -/
def Ordered : Term → Prop
  | num n => n.IsOrdered
  | compound _ args => OrderedArgs args
  | _ => True

/-- No NaN occurs in the terms. -/
def OrderedArgs : List Term → Prop
  | [] => True
  | t :: ts => Ordered t ∧ OrderedArgs ts

end

theorem orderedArgs_iff {ts : List Term} : OrderedArgs ts ↔ ∀ t ∈ ts, t.Ordered := by
  induction ts with
  | nil => simp [OrderedArgs]
  | cons t ts ih => rw [OrderedArgs, ih, List.forall_mem_cons]

theorem ordered_compound_iff {f : String} {args : List Term} :
    (compound f args).Ordered ↔ ∀ t ∈ args, t.Ordered := by
  rw [Ordered, orderedArgs_iff]

theorem ordered_canonical_iff {t : Term} : t.canonical.Ordered ↔ t.Ordered := by
  induction t using induct with
  | var v => rfl
  | atom a => rfl
  | num n => exact Number.isOrdered_unsignZero_iff
  | compound f args ih =>
      rw [canonical, canonicalArgs_eq_map, ordered_compound_iff, ordered_compound_iff,
        List.forall_mem_map]
      exact forall₂_congr ih

/-- A NaN occurs in both or none of two terms that are the same. -/
theorem Same.ordered_iff {t u : Term} (h : t.Same u) : t.Ordered ↔ u.Ordered := by
  rw [← ordered_canonical_iff, h, ordered_canonical_iff]

/-! ### Equality -/

theorem equalArgs_eq_true_iff {as bs : List Term} :
    equalArgs as bs = true ↔ List.Forall₂ (fun a b => a.equal b = true) as bs := by
  induction as generalizing bs with
  | nil => cases bs <;> simp [equalArgs]
  | cons a as ih =>
      cases bs with
      | nil => simp [equalArgs]
      | cons b bs => rw [equalArgs, Bool.and_eq_true, ih, List.forall₂_cons]

/-- If arguments are equal when they are the same without a NaN, so are lists of them. -/
theorem forall₂_equal_iff {as bs : List Term}
    (h : ∀ a ∈ as, ∀ b, a.equal b = true ↔ a.Same b ∧ a.Ordered) :
    List.Forall₂ (fun a b => a.equal b = true) as bs ↔
      List.Forall₂ Same as bs ∧ ∀ a ∈ as, a.Ordered := by
  induction as generalizing bs with
  | nil => cases bs <;> simp
  | cons a as ih =>
      cases bs with
      | nil => simp
      | cons b bs =>
          rw [List.forall₂_cons, List.forall₂_cons, List.forall_mem_cons,
            h a List.mem_cons_self, ih fun c hc => h c (List.mem_cons_of_mem a hc)]
          exact and_and_and_comm

/-- **Equality is being the same without a NaN.** -/
theorem equal_iff {t u : Term} : t.equal u = true ↔ t.Same u ∧ t.Ordered := by
  induction t using induct generalizing u with
  | var v => cases u <;> simp [equal, Ordered, Same, canonical]
  | atom a => cases u <;> simp [equal, Ordered, Same, canonical]
  | num m =>
      cases u with
      | num n => rw [equal, Number.equal_eq_true_iff, same_num_iff, Ordered]
      | _ => simp [equal, Same, canonical]
  | compound f as ih =>
      cases u with
      | compound g bs =>
          rw [equal, Bool.and_eq_true, beq_iff_eq, equalArgs_eq_true_iff, same_compound_iff,
            ordered_compound_iff, and_assoc, forall₂_equal_iff fun a ha b => ih a ha]
      | _ => simp [equal, Same, canonical]

theorem equal_symm {t u : Term} (h : t.equal u = true) : u.equal t = true := by
  rw [equal_iff] at h ⊢
  exact ⟨h.1.symm, h.1.ordered_iff.1 h.2⟩

theorem equal_trans {t u s : Term} (h : t.equal u = true) (h' : u.equal s = true) :
    t.equal s = true := by
  rw [equal_iff] at h h' ⊢
  exact ⟨h.1.trans h'.1, h.2⟩

/-- A term that is the same as the left one equals the right one as well. -/
theorem Same.equal {t u s : Term} (h : s.Same t) (h' : t.equal u = true) : s.equal u = true := by
  rw [equal_iff] at h' ⊢
  exact ⟨h.trans h'.1, h.ordered_iff.2 h'.2⟩

/-- On terms without a NaN, equality is being the same. -/
theorem equal_iff_same {t u : Term} (ht : t.Ordered) : t.equal u = true ↔ t.Same u := by
  rw [equal_iff, and_iff_left ht]

end Term

end LogicTerms
