/-
**Negation goes by kind.**

The four operations on exact numbers go by values: their result is an integer whenever its value is
one, even if the operands are ratios.  Negation leaves a number in its kind.  The negative of an
exact number has the value of its difference from zero and of its product with minus one, and it is
the same number as these two, with one exception: the literal of a fraction is read as a ratio even
if its value is whole, and the negative of such a ratio is still a ratio, while the difference and
the product are integers.

Main definitions:

* `Number.IsWholeRatio` — a ratio whose value is an integer.

Main results:

* `Number.IsCanonical.unique` — one number stands for a rational number;
* `Number.isCanonical_iff` — whole ratios are the exact numbers that do not stand for their values;
* `Number.neg_agrees_iff` — **negation agrees with the other operations except on whole ratios**.
-/

import LogicTerms.Proofs.Number.Arithmetic

set_option relaxedAutoImplicit false
set_option autoImplicit false

namespace LogicTerms.Number

variable {c d n : Number} {q v : ℚ}

/-! ### Exact numbers -/

/-- A ratio whose value is an integer. -/
def IsWholeRatio (n : Number) : Prop := ∃ i : ℤ, n = ratio i

/-- Exact numbers are equal only to themselves. -/
theorem equal_iff_eq (hc : c.toRat? = some q) : c.equal d = true ↔ c = d := by
  cases c with
  | float x => exact nomatch hc
  | int i => cases d <;> simp [equal]
  | ratio p => cases d <;> simp [equal]

/-- One number stands for a rational number. -/
theorem IsCanonical.unique (hc : IsCanonical v c) (hd : IsCanonical v d) : c = d := by
  have hkind : c.isInt = true ↔ d.isInt = true := hc.isInt_iff.trans hd.isInt_iff.symm
  have hvalue : c.toRat? = d.toRat? := hc.value.trans hd.value.symm
  cases c with
  | float x => exact nomatch hc.value
  | int i =>
      cases d with
      | int j => exact congrArg int (Int.cast_injective (Option.some.inj hvalue))
      | float y => exact nomatch hd.value
      | ratio q => exact nomatch hkind.1 rfl
  | ratio p =>
      cases d with
      | int j => exact nomatch hkind.2 rfl
      | float y => exact nomatch hd.value
      | ratio q => exact congrArg ratio (Option.some.inj hvalue)

/-- **Whole ratios are the exact numbers that do not stand for their values.** -/
theorem isCanonical_iff (hn : n.toRat? = some q) : IsCanonical q n ↔ ¬ n.IsWholeRatio := by
  cases n with
  | float x => exact nomatch hn
  | int i =>
      refine iff_of_true ?_ fun ⟨j, hj⟩ => nomatch hj
      obtain rfl : (i : ℚ) = q := Option.some.inj hn
      exact ofRat_intCast i ▸ isCanonical_ofRat (i : ℚ)
  | ratio p =>
      obtain rfl : p = q := Option.some.inj hn
      constructor
      · rintro h ⟨i, hi⟩
        exact nomatch h.isInt_iff.2 ⟨i, (ratio.inj hi).symm⟩
      · intro h
        have hnone : ¬ ∃ i : ℤ, (i : ℚ) = p := fun ⟨i, hi⟩ => h ⟨i, congrArg ratio hi.symm⟩
        exact ⟨hn, iff_of_false Bool.false_ne_true hnone, fun _ => ⟨Rat.den_pos _, Rat.reduced _⟩⟩

/-- Of an operation other than division, exact numbers have the number that stands for the result on
their values. -/
theorem Operation.apply_eq_ofRat (op : Operation) (hop : op ≠ .div) {p : ℚ}
    (hc : c.toRat? = some p) (hd : d.toRat? = some q) :
    op.apply c d = some (ofRat (op.onRat p q)) := by
  rw [op.apply_of_toRat? hc hd, onRat?, if_neg fun h => hop h.1]

/-! ### Negation -/

/-- The negative of an exact number has the negative value. -/
theorem toRat?_neg (hn : n.toRat? = some q) : n.neg.toRat? = some (-q) := by
  cases n with
  | float x => exact nomatch hn
  | int i =>
      obtain rfl : (i : ℚ) = q := Option.some.inj hn
      exact congrArg some (Int.cast_neg i)
  | ratio p =>
      obtain rfl : p = q := Option.some.inj hn
      rfl

/-- Negation keeps whole ratios, and makes none. -/
theorem isWholeRatio_neg_iff : n.neg.IsWholeRatio ↔ n.IsWholeRatio := by
  have hforward : ∀ m : Number, m.IsWholeRatio → m.neg.IsWholeRatio := by
    rintro _ ⟨i, rfl⟩
    exact ⟨-i, congrArg ratio (Int.cast_neg i).symm⟩
  refine ⟨fun h => ?_, hforward n⟩
  cases n with
  | int i => exact nomatch h
  | float x => exact nomatch h
  | ratio p =>
      have hback := hforward _ h
      rwa [neg, neg, neg_neg] at hback

/-- **Negation agrees with the other operations except on whole ratios.**  The difference of an
exact number from zero and its product with minus one are the number that stands for the negative
value.
The negative has this value as well.  It is that number exactly if the number is not a whole ratio,
and otherwise it is again a whole ratio. -/
theorem neg_agrees_iff (hn : n.toRat? = some q) :
    ∃ c, (int 0).sub n = some c ∧ n.mul (int (-1)) = some c ∧ IsCanonical (-q) c ∧
      n.neg.toRat? = some (-q) ∧ (n.neg.equal c = true ↔ ¬ n.IsWholeRatio) ∧
      (n.neg.IsWholeRatio ↔ n.IsWholeRatio) := by
  have hneg := toRat?_neg hn
  have hsub : (int 0).sub n = some (ofRat (-q)) := by
    have hvalue : Operation.sub.onRat ((0 : ℤ) : ℚ) q = -q := by simp [Operation.onRat]
    exact hvalue ▸ Operation.sub.apply_eq_ofRat (c := int 0) (by rintro ⟨⟩) rfl hn
  have hmul : n.mul (int (-1)) = some (ofRat (-q)) := by
    have hvalue : Operation.mul.onRat q ((-1 : ℤ) : ℚ) = -q := by simp [Operation.onRat]
    exact hvalue ▸ Operation.mul.apply_eq_ofRat (d := int (-1)) (by rintro ⟨⟩) hn rfl
  refine ⟨ofRat (-q), hsub, hmul, isCanonical_ofRat _, hneg, ?_, isWholeRatio_neg_iff⟩
  rw [equal_iff_eq hneg, ← isWholeRatio_neg_iff, ← isCanonical_iff hneg]
  constructor
  · intro h
    exact h ▸ isCanonical_ofRat (-q)
  · intro h
    exact h.unique (isCanonical_ofRat _)

/-- Three halves is negated like the other operations do it, and two over one is not. -/
theorem neg_agrees_iff_halves :
    (∃ c, (int 0).sub (ratio (3 / 2)) = some c ∧ (ratio (3 / 2)).neg.equal c = true) ∧
      ∃ c, (int 0).sub (ratio 2) = some c ∧ (ratio 2).mul (int (-1)) = some c ∧
        (ratio 2).neg.equal c = false := by
  have hhalves : ¬ (ratio (3 / 2)).IsWholeRatio := by
    rintro ⟨i, hi⟩
    have hden := congrArg Rat.den (ratio.inj hi)
    rw [Rat.den_intCast] at hden
    exact absurd hden (by decide +kernel)
  constructor
  · obtain ⟨c, hsub, -, -, -, hequal, -⟩ := neg_agrees_iff (n := ratio (3 / 2)) rfl
    exact ⟨c, hsub, hequal.2 hhalves⟩
  · obtain ⟨c, hsub, hmul, -, -, hequal, -⟩ := neg_agrees_iff (n := ratio 2) rfl
    exact ⟨c, hsub, hmul, Bool.eq_false_iff.2 fun h => hequal.1 h ⟨2, rfl⟩⟩

/-- The negative of two over one is a ratio, and the difference and the product are integers. -/
theorem neg_of_whole_ratio :
    (ratio 2).neg = ratio (-2) ∧ (int 0).sub (ratio 2) = some (int (-2)) ∧
      (ratio 2).mul (int (-1)) = some (int (-2)) ∧ (ratio 2).neg.equal (int (-2)) = false := by
  decide +kernel

end LogicTerms.Number
