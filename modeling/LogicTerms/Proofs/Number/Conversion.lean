/-
**Conversion to doubles keeps the order.**

Numbers of all kinds are compared without rounding, but they are rounded when they are mixed with
doubles.  Rounding may make two values one, and it never changes their order: where the nearest
doubles of two numbers were in the other order, each of the numbers would be on its own double's
side of the point halfway between these, and so in the other order as well.  A value that is the
value of a double is rounded to that double, for nothing is nearer to it than itself, and what is
beyond the doubles becomes infinite.

All of this follows from the rule of the nearest double, so it holds of every conversion that keeps
to the rule.  Such a conversion may give up on integers that are beyond the doubles, which become
infinite all the same; of a ratio it must not, because a quotient of rounded numbers is rounded
twice.

Main definitions:

* `Conversion.IsFaithful` — **the rule**, for a conversion;
* `Binary64.IsRounded` — what a value is rounded to, infinities included.

Main results:

* `Binary64.IsNearest.value_le` — the nearest doubles of two values are in the order of the values;
* `Binary64.IsNearest.value?_eq` — a value of a double is rounded to itself;
* `Binary64.IsRounded.extended_le` — **rounding keeps the order**;
* `Number.convert_keeps_order` — **conversion keeps the order, and the value where it can**.
-/

import LogicTerms.Number.Conversion
import LogicTerms.Proofs.Binary64.Arithmetic
import LogicTerms.Proofs.Number.Comparison

set_option relaxedAutoImplicit false
set_option autoImplicit false

namespace LogicTerms

namespace Binary64

variable {p q u v : ℚ} {x y : Binary64}

/-! ### The threshold -/

/-- The threshold is beyond the greatest finite double. -/
theorem absValue_lt_overflowThreshold {m : ℕ} (h : m < infinityMagnitude) :
    absValue m < overflowThreshold := by
  have hmid := lowerMidpoint_infinityMagnitude
  have hle : absValue m ≤ absValue (infinityMagnitude - 1) :=
    absValue_strictMono.monotone (by omega)
  have hlt : absValue (infinityMagnitude - 1) < absValue infinityMagnitude :=
    absValue_strictMono (by decide)
  rw [lowerMidpoint_div] at hmid
  linarith

theorem overflowThreshold_pos : 0 < overflowThreshold :=
  (absValue_nonneg 0).trans_lt (absValue_lt_overflowThreshold (by decide))

theorem abs_lt_overflowThreshold (h : x.value? = some v) : |v| < overflowThreshold := by
  rw [abs_of_value? h]
  exact absValue_lt_overflowThreshold (of_decide_eq_true (value?_eq_iff.1 h).1)

/-- The threshold is below the power of two that would come next. -/
theorem overflowThreshold_le : overflowThreshold ≤ 2 ^ 1024 := by
  have hpow : (2 : ℚ) ^ 1024 = 2 * 2 ^ 1023 := pow_succ' 2 1023
  have hpos : (0 : ℚ) < 2 ^ 1023 := pow_pos two_pos 1023
  rw [overflowThreshold, hpow]
  refine mul_le_mul_of_nonneg_right ?_ hpos.le
  norm_num

/-! ### One value -/

/-- A finite double is the nearest one to its own value. -/
theorem isNearest_of_value? (h : x.value? = some v) : IsNearest v x := by
  have hlt := abs_lt_overflowThreshold h
  obtain ⟨hfin, hvalue⟩ := value?_eq_iff.1 h
  have hself : ∀ {w : ℚ}, x.value? = some w → |v - w| = 0 := by
    intro w hw
    obtain rfl : v = w := Option.some.inj (h.symm.trans hw)
    rw [sub_self, abs_zero]
  refine ⟨fun hne => ?_, ?_, fun _ => ⟨v, h⟩, fun hv _ => ?_, fun hv _ htie hne => ?_⟩
  · rw [← hvalue] at hne ⊢
    exact negative_iff_finiteValue_neg hne
  · refine iff_of_false (fun hinf => ?_) (not_le.2 hlt)
    rw [isFinite, decide_eq_true_eq, beq_iff_eq.1 hinf] at hfin
    exact lt_irrefl _ hfin
  · rw [hself hv]
    exact abs_nonneg _
  · rw [hself hv, eq_comm, abs_eq_zero, sub_eq_zero] at htie
    exact absurd (htie.symm.trans (Option.some.inj (h.symm.trans hv))) hne

/-- **A value of a double is rounded to itself.** -/
theorem IsNearest.value?_eq (hx : IsNearest q x) (hy : y.value? = some q) :
    x.value? = some q := by
  obtain ⟨v, hv⟩ := hx.exists_value (abs_lt_overflowThreshold hy)
  have hle := hx.nearest hv hy
  rw [sub_self, abs_zero, abs_nonpos_iff, sub_eq_zero] at hle
  rw [hv, hle]

/-- Where a value is rounded to: to an infinity from the threshold on, and to a value below it. -/
theorem IsNearest.cases (h : IsNearest q x) :
    (q ≤ -overflowThreshold ∧ x = infinity true) ∨
      (|q| < overflowThreshold ∧ ∃ v, x.value? = some v) ∨
      (overflowThreshold ≤ q ∧ x = infinity false) := by
  have hpos := overflowThreshold_pos
  by_cases hlt : |q| < overflowThreshold
  · exact .inr (.inl ⟨hlt, h.exists_value hlt⟩)
  · have hinf := eq_infinity_of_isInfinite (h.isInfinite_iff.2 (not_lt.1 hlt))
    rcases le_abs'.1 (not_lt.1 hlt) with hle | hge
    · have hneg : x.negative = true := (h.negative_iff (by linarith)).2 (by linarith)
      exact .inl ⟨hle, hneg ▸ hinf⟩
    · have hneg : x.negative = false := by
        rw [← Bool.not_eq_true, h.negative_iff (by linarith)]
        linarith
      exact .inr (.inr ⟨hge, hneg ▸ hinf⟩)

/-! ### Two values -/

/-- The nearest doubles of one value have one value. -/
theorem IsNearest.value_unique (hx : IsNearest q x) (hy : IsNearest q y) (hu : x.value? = some u)
    (hv : y.value? = some v) : u = v := by
  by_cases hzero : q = 0
  · have hself : ∀ {z : Binary64} {w : ℚ}, IsNearest q z → z.value? = some w → w = 0 := by
      intro z w hz hw
      have h := hz.value?_eq (hzero ▸ value?_zero false)
      rw [hzero] at h
      exact Option.some.inj (hw.symm.trans h)
    rw [hself hx hu, hself hy hv]
  · have hsign : x.negative = y.negative :=
      Bool.eq_iff_iff.2 ((hx.negative_iff hzero).trans (hy.negative_iff hzero).symm)
    rw [hx.unique hy hsign] at hu
    exact Option.some.inj (hu.symm.trans hv)

/-- **The nearest doubles of two values are in the order of the values.** -/
theorem IsNearest.value_le (hx : IsNearest p x) (hy : IsNearest q y) (hpq : p ≤ q)
    (hu : x.value? = some u) (hv : y.value? = some v) : u ≤ v := by
  by_contra hlt
  have hlt : v < u := not_le.1 hlt
  -- each value is on the side of its own double, which leaves one point for both
  have hleft : v + u ≤ 2 * p := (abs_sub_le_right_iff hlt).1 (hx.nearest hu hv)
  have hright : 2 * q ≤ v + u := (abs_sub_le_left_iff hlt).1 (hy.nearest hv hu)
  obtain rfl : p = q := by linarith
  exact hlt.ne' (hx.value_unique hy hu hv)

/-! ### Values with infinities -/

/-- What a value is rounded to: the nearest double, or the same infinity. -/
def IsRounded : WithBotTop ℚ → Binary64 → Prop
  | ⊥, x => x = infinity true
  | (q : ℚ), x => IsNearest q x
  | ⊤, x => x = infinity false

theorem extended?_infinity (s : Bool) :
    (infinity s).extended? = some (if s then ⊥ else ⊤) := extended?_of_isInfinite rfl

/-- A double is what its own value is rounded to. -/
theorem isRounded_of_extended? {w : WithBotTop ℚ} (h : x.extended? = some w) : IsRounded w x := by
  obtain hfin | hinf | hnan := x.isFinite_or
  · have hvalue := value?_eq_iff.2 ⟨hfin, rfl⟩
    rw [extended?_of_value? hvalue] at h
    cases h
    exact isNearest_of_value? hvalue
  · rw [extended?_of_isInfinite hinf] at h
    rw [eq_infinity_of_isInfinite hinf]
    cases hs : x.negative <;> rw [hs] at h <;> cases h <;> rfl
  · rw [extended?_eq_none_iff.2 hnan] at h
    exact nomatch h

/-- What a value is rounded to has a value. -/
theorem IsRounded.exists_extended {w : WithBotTop ℚ} (h : IsRounded w x) :
    ∃ w', x.extended? = some w' := by
  induction w using WithBotTop.rec with
  | bot => exact ⟨⊥, Eq.symm h ▸ extended?_infinity true⟩
  | top => exact ⟨⊤, Eq.symm h ▸ extended?_infinity false⟩
  | coe q =>
      rcases IsNearest.cases h with ⟨-, rfl⟩ | ⟨-, v, hv⟩ | ⟨-, rfl⟩
      · exact ⟨⊥, extended?_infinity true⟩
      · exact ⟨v, extended?_of_value? hv⟩
      · exact ⟨⊤, extended?_infinity false⟩

/-- Rational values are rounded in their order, to infinities as well. -/
theorem IsNearest.extended_le {w z : WithBotTop ℚ} (hx : IsNearest p x) (hy : IsNearest q y)
    (hpq : p ≤ q) (hw : x.extended? = some w) (hz : y.extended? = some z) : w ≤ z := by
  rcases hx.cases with ⟨-, rfl⟩ | ⟨hp, u, hu⟩ | ⟨hp, rfl⟩
  · cases (extended?_infinity true).symm.trans hw
    exact bot_le
  · rcases hy.cases with ⟨hq, rfl⟩ | ⟨-, v, hv⟩ | ⟨-, rfl⟩
    · linarith [(abs_lt.1 hp).1]
    · cases (extended?_of_value? hu).symm.trans hw
      cases (extended?_of_value? hv).symm.trans hz
      exact WithBotTop.coe_le_coe.2 (hx.value_le hy hpq hu hv)
    · cases (extended?_infinity false).symm.trans hz
      exact le_top
  · rcases hy.cases with ⟨hq, rfl⟩ | ⟨hq, -⟩ | ⟨-, rfl⟩
    · linarith [overflowThreshold_pos]
    · linarith [(abs_lt.1 hq).2]
    · cases (extended?_infinity false).symm.trans hz
      exact le_top

/-- **Rounding keeps the order.** -/
theorem IsRounded.extended_le {s t w z : WithBotTop ℚ} (hx : IsRounded s x) (hy : IsRounded t y)
    (hst : s ≤ t) (hw : x.extended? = some w) (hz : y.extended? = some z) : w ≤ z := by
  induction s using WithBotTop.rec with
  | bot =>
      obtain rfl : x = infinity true := hx
      cases (extended?_infinity true).symm.trans hw
      exact bot_le
  | top =>
      obtain rfl : t = ⊤ := top_le_iff.1 hst
      obtain rfl : y = infinity false := hy
      cases (extended?_infinity false).symm.trans hz
      exact le_top
  | coe p =>
      induction t using WithBotTop.rec with
      | bot => exact absurd (le_bot_iff.1 hst) (WithBotTop.coe_ne_bot p)
      | top =>
          obtain rfl : y = infinity false := hy
          cases (extended?_infinity false).symm.trans hz
          exact le_top
      | coe q => exact IsNearest.extended_le hx hy (WithBotTop.coe_le_coe.1 hst) hw hz

/-- No value is rounded to a NaN. -/
theorem IsRounded.isNaN {w : WithBotTop ℚ} (h : IsRounded w x) : x.isNaN = false := by
  obtain ⟨w', hw'⟩ := h.exists_extended
  rw [← Bool.not_eq_true, ← extended?_eq_none_iff, hw']
  exact Option.some_ne_none w'

/-! ### The nearest double of an exact number -/

theorem isNearest_ofRat (q : ℚ) : IsNearest q (ofRat q) := by
  refine isNearest_ofFraction q.den_pos ?_ fun _ => ?_
  · conv_lhs => rw [← Rat.num_div_den q]
    rw [abs_div, Nat.abs_cast, ofUnits, Nat.cast_mul, Nat.cast_natAbs, Int.cast_abs,
      mul_div_mul_right _ _ cast_unitsPerOne_pos.ne']
  · rw [decide_eq_true_eq, Rat.num_neg]

theorem isNearest_ofInt (i : ℤ) : IsNearest i (ofInt i) := isNearest_ofRat i

/-- From the threshold on, the nearest double is the infinity of the sign. -/
theorem isNearest_infinity (h : overflowThreshold ≤ |q|) :
    IsNearest q (infinity (decide (q < 0))) := by
  have hnone : ∀ {v : ℚ}, (infinity (decide (q < 0))).value? ≠ some v := fun hv =>
    Bool.false_ne_true (value?_eq_iff.1 hv).1
  exact ⟨fun _ => decide_eq_true_iff, iff_of_true rfl h, fun hlt => absurd h (not_le.2 hlt),
    fun hv _ => absurd hv hnone, fun hv _ _ _ => absurd hv hnone⟩

end Binary64

/-! ### Conversions -/

/-- **The rule** for a conversion: what it gives is the nearest double, and it gives up on nothing
but integers that are beyond the doubles. -/
structure Conversion.IsFaithful (c : Conversion) : Prop where
  /-- An integer becomes the nearest double. -/
  isNearest_int : ∀ {i : ℤ} {x : Binary64}, c.ofInt? i = some x → Binary64.IsNearest i x
  /-- An integer on which the conversion gives up is beyond the doubles. -/
  overflow_int : ∀ {i : ℤ}, c.ofInt? i = none → Binary64.overflowThreshold ≤ |(i : ℚ)|
  /-- Every fraction becomes the nearest double. -/
  isNearest_ratio : ∀ q : ℚ, ∃ x, c.ofRat? q = some x ∧ Binary64.IsNearest q x

namespace Number

open Binary64 (IsNearest IsRounded)

variable {c : Conversion} {a b : Number}

theorem isFaithful_nearest : Conversion.nearest.IsFaithful where
  isNearest_int h := Option.some.inj h ▸ Binary64.isNearest_ofInt _
  overflow_int h := nomatch h
  isNearest_ratio q := ⟨_, rfl, Binary64.isNearest_ofRat q⟩

/-- An integer becomes the nearest double, whether or not the conversion gives up. -/
theorem isNearest_convert_int (hc : c.IsFaithful) (i : ℤ) : IsNearest i ((int i).convert c) := by
  rw [convert, Conversion.int]
  cases hi : c.ofInt? i with
  | some x => exact hc.isNearest_int hi
  | none =>
      have hneg : decide (i < 0) = decide ((i : ℚ) < 0) := decide_eq_decide.2 Int.cast_lt_zero.symm
      rw [Option.getD_none, hneg]
      exact Binary64.isNearest_infinity (hc.overflow_int hi)

/-- A ratio becomes the nearest double. -/
theorem isNearest_convert_ratio (hc : c.IsFaithful) (q : ℚ) :
    IsNearest q ((ratio q).convert c) := by
  obtain ⟨x, hx, hnearest⟩ := hc.isNearest_ratio q
  rwa [convert, Conversion.ratio, hx, Option.getD_some]

/-- **A number becomes what its value is rounded to.** -/
theorem isRounded_convert (hc : c.IsFaithful) {w : WithBotTop ℚ} (ha : a.extended? = some w) :
    IsRounded w (a.convert c) := by
  cases a with
  | int i =>
      cases ha
      exact isNearest_convert_int hc i
  | float x => exact Binary64.isRounded_of_extended? ha
  | ratio q =>
      cases ha
      exact isNearest_convert_ratio hc q

theorem extended?_of_toRat? {q : ℚ} (ha : a.toRat? = some q) :
    a.extended? = some (q : WithBotTop ℚ) := by
  cases a with
  | float x => exact nomatch ha
  | _ => cases ha; rfl

theorem AtMost.convert (hc : c.IsFaithful) (h : a.AtMost b) :
    (float (a.convert c)).AtMost (float (b.convert c)) := by
  obtain ⟨u, v, ha, hb, huv⟩ := atMost_iff.1 h
  have hx := isRounded_convert hc ha
  have hy := isRounded_convert hc hb
  obtain ⟨w, hw⟩ := hx.exists_extended
  obtain ⟨z, hz⟩ := hy.exists_extended
  exact atMost_iff.2 ⟨w, z, hw, hz, hx.extended_le hy huv hw hz⟩

/-- A number that has the value of a finite double becomes a double of its value. -/
theorem sameValue_convert (hc : c.IsFaithful) {x : Binary64} (hx : x.isFinite = true)
    (ha : a.extended? = x.extended?) : (float (a.convert c)).sameValue a = true := by
  have hvalue := Binary64.value?_eq_iff.2 ⟨hx, rfl⟩
  have hextended := Binary64.extended?_of_value? hvalue
  have hnearest : IsNearest x.finiteValue (a.convert c) :=
    isRounded_convert hc (ha.trans hextended)
  have hself := Binary64.extended?_of_value? (hnearest.value?_eq hvalue)
  exact sameValue_iff.2 ⟨_, hself, ha.trans hextended⟩

/-- An exact number beyond the doubles becomes the infinity of its sign. -/
theorem convert_of_overflow (hc : c.IsFaithful) {q : ℚ} (ha : a.toRat? = some q)
    (hq : 2 ^ 1024 ≤ |q|) : a.convert c = .infinity (decide (q < 0)) := by
  have hle := Binary64.overflowThreshold_le.trans hq
  have hpos := Binary64.overflowThreshold_pos
  have hnearest : IsNearest q (a.convert c) := isRounded_convert hc (extended?_of_toRat? ha)
  rcases hnearest.cases with ⟨h, hx⟩ | ⟨h, -⟩ | ⟨h, hx⟩
  · rw [hx, decide_eq_true (by linarith)]
  · exact absurd hle (not_le.2 h)
  · rw [hx, decide_eq_false (by linarith)]

/-- **Conversion keeps the order, and the value where it can.**  Under a conversion that keeps to
the rule, a number that is at most another becomes a double that is at most the other's, for all
kinds and values; no number but a NaN becomes a NaN; a number whose value is that of a finite
double becomes a double of that value; and an exact number from `2 ^ 1024` on, of either sign,
becomes the infinity of its sign.  The conversion to the nearest double, by which numbers are mixed
with doubles, keeps to the rule. -/
theorem convert_keeps_order :
    (Conversion.nearest.IsFaithful ∧ ∀ a : Number, a.convert .nearest = a.toBinary64) ∧
    ∀ c : Conversion, c.IsFaithful →
      (∀ a b : Number, a.AtMost b → (float (a.convert c)).AtMost (float (b.convert c))) ∧
      (∀ a : Number, a.IsOrdered → (a.convert c).isNaN = false) ∧
      (∀ (a : Number) (x : Binary64), x.isFinite = true → a.extended? = x.extended? →
        (float (a.convert c)).sameValue a = true) ∧
      (∀ (a : Number) (q : ℚ), a.toRat? = some q → 2 ^ 1024 ≤ |q| →
        a.convert c = .infinity (decide (q < 0))) := by
  refine ⟨⟨isFaithful_nearest, convert_nearest⟩, fun c hc => ⟨fun a b => AtMost.convert hc, ?_,
    fun a x => sameValue_convert hc, fun a q => convert_of_overflow hc⟩⟩
  intro a ha
  obtain ⟨w, hw⟩ := exists_extended? ha
  exact (isRounded_convert hc hw).isNaN

/-- Around `2 ^ 53` an integer and a ratio that is more are rounded in their order, and to the same
double; a quarter becomes a double of its value; and the negative of `2 ^ 1024` becomes infinite. -/
theorem convert_keeps_order_nearest :
    (int (2 ^ 53)).AtMost (ratio (2 ^ 53 + 1 / 3)) ∧
      (float ((int (2 ^ 53)).convert .nearest)).AtMost
        (float ((ratio (2 ^ 53 + 1 / 3)).convert .nearest)) ∧
      ((ratio (1 / 3)).convert .nearest).isNaN = false ∧
      (float ((ratio (1 / 4)).convert .nearest)).sameValue (ratio (1 / 4)) = true ∧
      (int (-2 ^ 1024)).convert .nearest = .infinity true := by
  obtain ⟨⟨hnearest, -⟩, hfaithful⟩ := convert_keeps_order
  obtain ⟨hmono, hnan, hexact, hoverflow⟩ := hfaithful .nearest hnearest
  have hle : (int (2 ^ 53)).AtMost (ratio (2 ^ 53 + 1 / 3)) := ⟨.lt, by decide +kernel, nofun⟩
  have hquarter : (ratio (1 / 4)).extended? =
      (Binary64.ofBits 0x3FD0000000000000).extended? := by
    have hvalue : (Binary64.ofBits 0x3FD0000000000000).value? = some (1 / 4) := by decide +kernel
    rw [Binary64.extended?_of_value? hvalue]
    rfl
  refine ⟨hle, hmono _ _ hle, hnan _ trivial, hexact _ _ (by decide) hquarter, ?_⟩
  have hcast : ((-2 ^ 1024 : ℤ) : ℚ) = -2 ^ 1024 := by
    rw [Int.cast_neg, Int.cast_pow, Int.cast_ofNat]
  have hpos : (0 : ℚ) < 2 ^ 1024 := pow_pos two_pos 1024
  have hlarge : (2 : ℚ) ^ 1024 ≤ |((-2 ^ 1024 : ℤ) : ℚ)| := by
    rw [hcast, abs_neg, abs_of_pos hpos]
  rw [hoverflow (int (-2 ^ 1024)) _ rfl hlarge, hcast, decide_eq_true (neg_lt_zero.2 hpos)]

end Number

end LogicTerms
