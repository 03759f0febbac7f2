/-
**Comparison by value.**

Every number but a NaN has a value among the rational numbers with two infinities: an exact number is
its own value, and a double has the value that its fields stand for, which is exact as well.  Two
numbers compare as their values do, whatever their kinds are, and a NaN does not compare with
anything.  So, NaNs apart, numbers are in a total preorder, in which numbers of different kinds are
in one place if they have the same value; no double is ever rounded, nor a large integer, for this
would make two different values equal to a third one between them.

The places that numbers have in the standard order do most of the work: the place of a number depends
on its value alone and grows with it.

Main definitions:

* `Number.extended?` — the value of a number, which may be infinite; none of a NaN;
* `Number.AtMost` — the order of numbers by value.

Main results:

* `Number.placeOf_lt_placeOf_iff`, `Number.place_of_extended?` — places are those of values, and
  grow with them;
* `Number.compare?_eq_compare_extended?` — numbers compare as their values;
* `Number.compare?_by_value` — **comparison is by value**, and a total preorder but for NaNs.
-/

import LogicTerms.Proofs.Binary64.Fields
import LogicTerms.Proofs.Number.Order

set_option relaxedAutoImplicit false
set_option autoImplicit false

namespace LogicTerms.Number

variable {a b c : Number} {u v : WithBotTop ℚ}

/-! ### Values -/

/-- The value of a number, in the rational numbers with two infinities. -/
def extended? : Number → Option (WithBotTop ℚ)
  | int i => some ((i : ℚ) : WithBotTop ℚ)
  | float x => x.extended?
  | ratio q => some (q : WithBotTop ℚ)

/-- Only a NaN has no value. -/
theorem extended?_eq_none_iff : a.extended? = none ↔ ¬ a.IsOrdered := by
  cases a with
  | float x => rw [extended?, IsOrdered, Binary64.extended?_eq_none_iff, Bool.not_eq_false]
  | _ => simp [extended?, IsOrdered]

theorem exists_extended? (h : a.IsOrdered) : ∃ u, a.extended? = some u :=
  Option.ne_none_iff_exists'.1 fun hnone => extended?_eq_none_iff.1 hnone h

/-- The place of a value among those of the doubles. -/
def placeOf : WithBotTop ℚ → ℤ ×ₗ ℚ
  | ⊥ => (Binary64.infinity true).place
  | (q : ℚ) => toLex (0, q)
  | ⊤ => (Binary64.infinity false).place

/-- Places grow with the values. -/
theorem placeOf_lt_placeOf_iff : placeOf u < placeOf v ↔ u < v := by
  have hbot : ∀ {t : ℤ} (q : ℚ), -1 < t → (Binary64.infinity true).place < toLex (t, q) :=
    fun q ht => Prod.Lex.toLex_lt_toLex.2 (.inl ht)
  have htop : ∀ q : ℚ, toLex (0, q) < (Binary64.infinity false).place :=
    fun q => Prod.Lex.toLex_lt_toLex.2 (.inl Int.zero_lt_one)
  have hfinite : ∀ {p q : ℚ}, p < q → placeOf p < placeOf q :=
    fun h => Prod.Lex.toLex_lt_toLex.2 (.inr ⟨rfl, h⟩)
  have hmono : StrictMono placeOf := by
    refine WithBot.strictMono_iff.2
      ⟨WithTop.strictMono_iff.2 ⟨fun _ _ => hfinite, htop⟩, fun u => ?_⟩
    cases u with
    | top => exact hbot _ (by decide)
    | coe q => exact hbot q (by decide)
  exact hmono.lt_iff_lt

/-- The place of a number is that of its value. -/
theorem place_of_extended? (h : a.extended? = some u) : a.place = placeOf u := by
  cases a with
  | int i => cases h; rfl
  | ratio q => cases h; rfl
  | float x =>
      rw [extended?] at h
      obtain hfin | hinf | hnan := x.isFinite_or
      · have hvalue := Binary64.value?_eq_some_iff.2 ⟨hfin, rfl⟩
        rw [Binary64.extended?_of_value? hvalue] at h
        cases h
        exact Binary64.place_of_value? hvalue
      · rw [Binary64.extended?_of_isInfinite hinf] at h
        obtain ⟨negative, m, hm⟩ := x
        obtain rfl : m = Binary64.infinityMagnitude := beq_iff_eq.1 hinf
        cases negative <;> cases h <;> rfl
      · rw [Binary64.extended?_eq_none_iff.2 hnan] at h
        exact nomatch h

/-! ### Comparisons -/

/-- Numbers that have values compare as these. -/
theorem compare?_of_extended? (ha : a.extended? = some u) (hb : b.extended? = some v) :
    a.compare? b = some (compare u v) := by
  have hsome : a.compare? b ≠ none := by
    rw [ne_eq, compare?_eq_none_iff, ← extended?_eq_none_iff, ← extended?_eq_none_iff, ha, hb]
    simp
  obtain ⟨o, ho⟩ := Option.ne_none_iff_exists'.1 hsome
  have hplace : a.compareFallback b = compare u v := by
    rw [compareFallback_eq, place_of_extended? ha, place_of_extended? hb]
    exact Binary64.compare_eq_compare placeOf_lt_placeOf_iff placeOf_lt_placeOf_iff
  rw [compareFallback, ho, Option.getD_some] at hplace
  rw [ho, hplace]

/-- **Numbers compare as their values**, where both have one. -/
theorem compare?_eq_compare_extended? (a b : Number) :
    a.compare? b = Option.map₂ compare a.extended? b.extended? := by
  cases ha : a.extended? with
  | none =>
      rw [Option.map₂_none_left, compare?_eq_none_iff]
      exact .inl (extended?_eq_none_iff.1 ha)
  | some u =>
      cases hb : b.extended? with
      | none =>
          rw [Option.map₂_none_right, compare?_eq_none_iff]
          exact .inr (extended?_eq_none_iff.1 hb)
      | some v => exact compare?_of_extended? ha hb

/-! ### The order by value -/

/-- The first number is less than the second or has the same value. -/
def AtMost (a b : Number) : Prop := ∃ o, a.compare? b = some o ∧ o ≠ .gt

theorem atMost_iff :
    a.AtMost b ↔ ∃ u v, a.extended? = some u ∧ b.extended? = some v ∧ u ≤ v := by
  simp only [AtMost, compare?_eq_compare_extended?, Option.map₂_eq_some_iff, Option.mem_def]
  constructor
  · rintro ⟨_, ⟨u, v, ha, hb, rfl⟩, hne⟩
    exact ⟨u, v, ha, hb, not_lt.1 (mt compare_gt_iff_gt.2 hne)⟩
  · rintro ⟨u, v, ha, hb, huv⟩
    exact ⟨_, ⟨u, v, ha, hb, rfl⟩, mt compare_gt_iff_gt.1 (not_lt.2 huv)⟩

theorem sameValue_iff :
    a.sameValue b = true ↔ ∃ u, a.extended? = some u ∧ b.extended? = some u := by
  rw [sameValue, beq_iff_eq, compare?_eq_compare_extended?, Option.map₂_eq_some_iff]
  constructor
  · rintro ⟨u, v, ha, hb, huv⟩
    obtain rfl := compare_eq_iff_eq.1 huv
    exact ⟨u, ha, hb⟩
  · rintro ⟨u, ha, hb⟩
    exact ⟨u, u, ha, hb, compare_eq_iff_eq.2 rfl⟩

theorem AtMost.total (ha : a.IsOrdered) (hb : b.IsOrdered) : a.AtMost b ∨ b.AtMost a := by
  obtain ⟨u, hu⟩ := exists_extended? ha
  obtain ⟨v, hv⟩ := exists_extended? hb
  rw [atMost_iff, atMost_iff]
  exact (le_total u v).imp (fun h => ⟨u, v, hu, hv, h⟩) fun h => ⟨v, u, hv, hu, h⟩

theorem AtMost.trans (hab : a.AtMost b) (hbc : b.AtMost c) : a.AtMost c := by
  rw [atMost_iff] at hab hbc ⊢
  obtain ⟨u, v, ha, hb, huv⟩ := hab
  obtain ⟨v', w, hb', hc, hvw⟩ := hbc
  obtain rfl : v = v' := Option.some.inj (hb.symm.trans hb')
  exact ⟨u, w, ha, hc, huv.trans hvw⟩

/-- Numbers that are each at most the other have one value. -/
theorem atMost_and_atMost_iff : a.AtMost b ∧ b.AtMost a ↔ a.sameValue b = true := by
  rw [sameValue_iff, atMost_iff, atMost_iff]
  constructor
  · rintro ⟨⟨u, v, ha, hb, huv⟩, v', u', hb', ha', hvu⟩
    obtain rfl : u = u' := Option.some.inj (ha.symm.trans ha')
    obtain rfl : v = v' := Option.some.inj (hb.symm.trans hb')
    obtain rfl := le_antisymm huv hvu
    exact ⟨u, ha, hb⟩
  · rintro ⟨u, ha, hb⟩
    exact ⟨⟨u, u, ha, hb, le_rfl⟩, u, u, hb, ha, le_rfl⟩

/-- Having the same value is an equivalence of ordered numbers. -/
theorem equivalence_sameValue :
    Equivalence fun a b : {n : Number // n.IsOrdered} => a.1.sameValue b.1 = true where
  refl a := by
    obtain ⟨u, ha⟩ := exists_extended? a.2
    exact sameValue_iff.2 ⟨u, ha, ha⟩
  symm h := by
    obtain ⟨u, ha, hb⟩ := sameValue_iff.1 h
    exact sameValue_iff.2 ⟨u, hb, ha⟩
  trans hab hbc :=
    have hab := atMost_and_atMost_iff.2 hab
    have hbc := atMost_and_atMost_iff.2 hbc
    atMost_and_atMost_iff.1 ⟨hab.1.trans hbc.1, hbc.2.trans hab.2⟩

/-- **Comparison is by value.**  It fails if one of the numbers is a NaN and only then, and is
otherwise the comparison of the values of the two numbers, which are exact for every kind.  On ordered
numbers it makes a total preorder, in which the numbers of one place are those of one value; and
having the same value is an equivalence. -/
theorem compare?_by_value :
    (∀ a b : Number, (a.compare? b = none ↔ ¬ a.IsOrdered ∨ ¬ b.IsOrdered) ∧
      a.compare? b = Option.map₂ compare a.extended? b.extended?) ∧
    (∀ a b : Number, a.IsOrdered → b.IsOrdered → a.AtMost b ∨ b.AtMost a) ∧
    (∀ a b c : Number, a.AtMost b → b.AtMost c → a.AtMost c) ∧
    (∀ a b : Number, a.AtMost b ∧ b.AtMost a ↔ a.sameValue b = true) ∧
    Equivalence fun a b : {n : Number // n.IsOrdered} => a.1.sameValue b.1 = true :=
  ⟨fun a b => ⟨compare?_eq_none_iff, compare?_eq_compare_extended? a b⟩,
    fun _ _ => AtMost.total, fun _ _ _ => AtMost.trans, fun _ _ => atMost_and_atMost_iff,
    equivalence_sameValue⟩

/-- An integer and a ratio have the value of the double `2 ^ 53`, and the next integer is more than
that, although no double is nearer to it; the double nearest to a tenth is more than a tenth and less
than infinity; and a NaN does not compare. -/
theorem compare?_by_value_exact :
    (int (2 ^ 53)).sameValue (ratio (2 ^ 53)) = true ∧
      (float (.ofBits 0x4340000000000000)).AtMost (int (2 ^ 53 + 1)) ∧
      (ratio (mkRat 1 10)).AtMost (float (.infinity false)) ∧
      (float (.nan false)).compare? (float (.infinity false)) = none := by
  obtain ⟨hcompare, htotal, htrans, -, hequiv⟩ := compare?_by_value
  have hfloat : (float (.ofBits 0x4340000000000000)).IsOrdered := rfl
  have hleft : (int (2 ^ 53)).sameValue (float (.ofBits 0x4340000000000000)) = true := by
    decide +kernel
  have hright : (float (.ofBits 0x4340000000000000)).sameValue (ratio (2 ^ 53)) = true := by
    decide +kernel
  have hnot : ¬ (int (2 ^ 53 + 1)).AtMost (float (.ofBits 0x4340000000000000)) := by
    rintro ⟨o, ho, hne⟩
    have hgt : (int (2 ^ 53 + 1)).compare? (float (.ofBits 0x4340000000000000)) = some .gt := by
      decide +kernel
    exact hne (Option.some.inj (ho.symm.trans hgt))
  have htenth : (ratio (mkRat 1 10)).AtMost (float (.ofBits 0x3FB999999999999A)) :=
    ⟨.lt, by decide +kernel, nofun⟩
  refine ⟨?_, (htotal _ (int (2 ^ 53 + 1)) hfloat trivial).resolve_right hnot, ?_,
    (hcompare _ _).1.2 (.inl nofun)⟩
  · exact hequiv.trans (x := ⟨int (2 ^ 53), trivial⟩) (y := ⟨_, hfloat⟩)
      (z := ⟨ratio (2 ^ 53), trivial⟩) hleft hright
  · exact htrans _ _ _ htenth ⟨.lt, by decide +kernel, nofun⟩

end LogicTerms.Number
