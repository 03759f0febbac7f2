/-
**Decimals are written as literals.**

In either notation the text of a decimal is that of a decimal literal, and the literal denotes the
decimal.  The zeros that the positional notation puts around the digits do not count, or count as
much as the point that they move.

Main definitions:

* `Decimal.written` — a decimal with the digits that are written.

Main results:

* `exists_integerText` — an integer is written as a numeral behind a sign;
* `Decimal.exists_positional`, `Decimal.exists_scientific` — the two notations;
* `Decimal.exists_write` — **decimals are written as literals** of the digits that are written;
* `Decimal.isExact_of_written` — up to a size these literals are read exactly;
* `Decimal.value_written` — with the digits that are written a decimal denotes the same.
-/

import LogicTerms.Proofs.Literal.Decimal
import Mathlib.Tactic.NormNum

set_option relaxedAutoImplicit false
set_option autoImplicit false

namespace LogicTerms

/-! ### Integers -/

/-- An integer is written as a numeral behind a sign. -/
theorem exists_integerText (i : ℤ) :
    ∃ (s : Sign) (k : Numeral 10), s.text ++ k.text = integerText i ∧
      s.apply (k.value : ℤ) = i := by
  obtain ⟨k, htext, hvalue⟩ := Decimal.exists_numeral i.natAbs
  rw [integerText]
  split
  · refine ⟨.minus, k, by rw [htext]; rfl, ?_⟩
    rw [hvalue, Sign.apply]
    omega
  · refine ⟨.none, k, htext, ?_⟩
    rw [hvalue]
    show (i.natAbs : ℤ) = i
    omega

namespace Decimal

open Literal

variable {d : Decimal} {cs : List Char}

/-! ### Runs of digits -/

theorem ofDigits_zeros_append (k : ℕ) (cs : List Char) :
    ofDigits 10 (List.replicate k '0' ++ cs) = ofDigits 10 cs := by
  induction k with
  | zero => rfl
  | succ k ih => exact ih

theorem ofDigits_append_zeros (cs : List Char) (k : ℕ) :
    ofDigits 10 (cs ++ List.replicate k '0') = ofDigits 10 cs * 10 ^ k := by
  induction k with
  | zero => rw [List.replicate_zero, List.append_nil, Nat.pow_zero, Nat.mul_one]
  | succ k ih =>
      rw [List.replicate_succ', ← List.append_assoc, ofDigits_append_singleton, ih, Nat.pow_succ,
        Nat.mul_assoc]
      rfl

theorem isDigit_of_mem_zeros_append {k : ℕ} {c : Char} (h : ∀ c ∈ cs, isDigit 10 c = true)
    (hc : c ∈ List.replicate k '0' ++ cs) : isDigit 10 c = true := by
  rcases List.mem_append.1 hc with hc | hc
  · rw [List.eq_of_mem_replicate hc]
    rfl
  · exact h c hc

theorem isDigit_digits {c : Char} (h : c ∈ d.digits) : isDigit 10 c = true := by
  obtain ⟨k, htext, -⟩ := exists_numeral d.coefficient
  have hmem : c ∈ k.text := htext ▸ h
  exact Numeral.isDigit_of_mem_decimal hmem

theorem ofDigits_digits (d : Decimal) : ofDigits 10 d.digits = d.coefficient := by
  obtain ⟨k, htext, hvalue⟩ := exists_numeral d.coefficient
  rw [digits, ← htext, Numeral.ofDigits_text (by decide), hvalue]

/-- The digits of a decimal on two sides of a point. -/
theorem exists_numerals_of_split {as bs : List Char} (has : as ≠ []) (hbs : bs ≠ [])
    (h : as ++ bs = d.digits) :
    ∃ w f : Numeral 10, w.text = as ∧ f.text = bs ∧ f.digits.length = bs.length ∧
      (w.append f).value = d.coefficient := by
  have hall : ∀ c ∈ as ++ bs, isDigit 10 c = true := fun c hc => isDigit_digits (h ▸ hc)
  obtain ⟨w, rfl, -, -⟩ :=
    Numeral.exists_of_digits has fun c hc => hall c (List.mem_append_left _ hc)
  obtain ⟨f, rfl, -, hlength⟩ :=
    Numeral.exists_of_digits hbs fun c hc => hall c (List.mem_append_right _ hc)
  refine ⟨w, f, rfl, rfl, hlength, ?_⟩
  rw [← (w.append f).ofDigits_text (by decide), Numeral.text_append, h, ofDigits_digits]

/-! ### The two notations -/

theorem eq_of_parts {e : Decimal} (hcoefficient : d.coefficient = e.coefficient)
    (hexponent : d.exponent = e.exponent) : d = e := by
  cases d
  cases e
  exact congr (congrArg Decimal.mk hcoefficient) hexponent

/-- All digits behind the point. -/
theorem exists_of_point_nonpos (h : d.point ≤ 0) :
    ∃ l : DecimalLiteral, l.decimal = d ∧ l.exponent = none ∧
      l.text = ['0', '.'] ++ List.replicate (-d.point).toNat '0' ++ d.digits := by
  have hdigits : ∀ c ∈ List.replicate (-d.point).toNat '0' ++ d.digits, isDigit 10 c = true :=
    fun c hc => isDigit_of_mem_zeros_append (fun _ => isDigit_digits) hc
  obtain ⟨f, htext, hvalue, hplaces⟩ := Numeral.exists_of_digits (by simp [d.digits_ne_nil]) hdigits
  have hcoefficient : ((Numeral.single 0).append f).value = d.coefficient := by
    rw [Numeral.value_append, Numeral.value_single, hvalue, ofDigits_zeros_append, ofDigits_digits]
    simp
  have hexponent : (0 : ℤ) - f.digits.length = d.exponent := by
    rw [hplaces, List.length_append, List.length_replicate]
    rw [point] at h ⊢
    omega
  refine ⟨⟨⟨.single 0, some f⟩, none, .inl rfl⟩, ?_, rfl, ?_⟩
  · exact eq_of_parts hcoefficient hexponent
  · rw [List.append_assoc, ← htext]
    exact List.append_nil _

/-- A decimal with the zeros up to the point, and one behind it, among its digits. -/
def padded (d : Decimal) : Decimal := ⟨d.coefficient * 10 ^ (d.exponent.toNat + 1), -1⟩

theorem value_padded (h : 0 ≤ d.exponent) : d.padded.value = d.value := by
  obtain ⟨e, he⟩ := Int.eq_ofNat_of_zero_le h
  rw [value_eq_zpow, value_eq_zpow, padded, he, Int.toNat_natCast, zpow_natCast, zpow_neg_one]
  push_cast
  rw [pow_succ]
  ring

/-- All digits before the point. -/
theorem exists_of_exponent_nonneg :
    ∃ l : DecimalLiteral, l.decimal = d.padded ∧ l.exponent = none ∧
      l.text = d.digits ++ List.replicate d.exponent.toNat '0' ++ ['.', '0'] := by
  have hdigits : ∀ c ∈ d.digits ++ List.replicate d.exponent.toNat '0', isDigit 10 c = true := by
    intro c hc
    rcases List.mem_append.1 hc with hc | hc
    · exact isDigit_digits hc
    · rw [List.eq_of_mem_replicate hc]
      rfl
  obtain ⟨w, htext, hvalue, -⟩ := Numeral.exists_of_digits (by simp [d.digits_ne_nil]) hdigits
  rw [ofDigits_append_zeros, ofDigits_digits] at hvalue
  have hcoefficient : (w.append (.single 0)).value = d.coefficient * 10 ^ (d.exponent.toNat + 1) := by
    rw [Numeral.value_append, Numeral.value_single, hvalue, Nat.pow_succ, ← Nat.mul_assoc]
    rfl
  refine ⟨⟨⟨w, some (.single 0)⟩, none, .inl rfl⟩, eq_of_parts hcoefficient rfl, rfl, ?_⟩
  rw [← htext]
  exact List.append_nil _

/-- Digits on both sides of the point. -/
theorem exists_of_point_pos (h : 0 < d.point) (h' : d.exponent < 0) :
    ∃ l : DecimalLiteral, l.decimal = d ∧ l.exponent = none ∧
      l.text = d.digits.take d.point.toNat ++ '.' :: d.digits.drop d.point.toNat := by
  have hpoint : d.point = d.digits.length + d.exponent := rfl
  have htake : d.digits.take d.point.toNat ≠ [] := by
    rw [Ne, List.take_eq_nil_iff, not_or]
    exact ⟨by omega, d.digits_ne_nil⟩
  have hdrop : d.digits.drop d.point.toNat ≠ [] := by
    rw [Ne, List.drop_eq_nil_iff]
    omega
  obtain ⟨w, f, hw, hf, hplaces, hcoefficient⟩ :=
    exists_numerals_of_split htake hdrop (List.take_append_drop _ _)
  have hexponent : (0 : ℤ) - f.digits.length = d.exponent := by
    rw [hplaces, List.length_drop]
    omega
  refine ⟨⟨⟨w, some f⟩, none, .inl rfl⟩, ?_, rfl, ?_⟩
  · exact eq_of_parts hcoefficient hexponent
  · rw [← hw, ← hf]
    exact List.append_nil _

theorem exists_positional (d : Decimal) :
    ∃ l : DecimalLiteral, l.decimal = (if 0 ≤ d.exponent then d.padded else d) ∧
      l.exponent = none ∧ l.text = d.positional := by
  have hlength := d.length_digits_pos
  have hpoint : d.point = d.digits.length + d.exponent := rfl
  rw [positional]
  by_cases he : 0 ≤ d.exponent
  · have hpos : ¬ d.point ≤ 0 := by omega
    rw [if_neg hpos, if_pos he, if_pos he]
    exact exists_of_exponent_nonneg
  · rw [if_neg he, if_neg he]
    split
    · exact exists_of_point_nonpos ‹_›
    · exact exists_of_point_pos (by omega) (by omega)

theorem exists_scientific (d : Decimal) :
    ∃ l : DecimalLiteral, l.decimal = d ∧ (∀ e ∈ l.exponent, e.value = d.point - 1) ∧
      l.text = d.scientific := by
  obtain ⟨s, k, hktext, hk⟩ := exists_integerText (d.point - 1)
  obtain ⟨c, cs, hdigits⟩ := List.exists_cons_of_ne_nil d.digits_ne_nil
  have hpoint : d.point = (cs.length + 1 : ℕ) + d.exponent := by
    rw [point, hdigits, List.length_cons]
  have htext : d.scientific =
      [c] ++ (if cs.isEmpty then [] else '.' :: cs) ++ 'e' :: (s.text ++ k.text) := by
    rw [scientific, hdigits, hktext]
    rfl
  rw [htext]
  have hpower : ∀ e ∈ some (⟨false, s, k⟩ : Exponent), e.value = d.point - 1 := by
    rintro e he
    rw [← Option.some.inj he]
    exact hk
  cases cs with
  | nil =>
      obtain ⟨w, hw, hvalue⟩ := exists_numeral d.coefficient
      have hw : w.text = [c] := hw.trans hdigits
      refine ⟨⟨⟨w, none⟩, some ⟨false, s, k⟩, .inr rfl⟩, eq_of_parts hvalue ?_, hpower, ?_⟩
      · show s.apply (k.value : ℤ) - (0 : ℕ) = d.exponent
        rw [hk, hpoint]
        simp
      · rw [← hw]
        rfl
  | cons b cs =>
      obtain ⟨w, f, hw, hf, hplaces, hcoefficient⟩ :=
        exists_numerals_of_split (List.cons_ne_nil c []) (List.cons_ne_nil b cs) hdigits.symm
      refine ⟨⟨⟨w, some f⟩, some ⟨false, s, k⟩, .inl rfl⟩, eq_of_parts hcoefficient ?_, hpower, ?_⟩
      · show s.apply (k.value : ℤ) - f.digits.length = d.exponent
        rw [hk, hpoint, hplaces]
        omega
      · show w.text ++ '.' :: f.text ++ 'e' :: (s.text ++ k.text) = _
        rw [hw, hf]
        rfl

/-- A decimal with the digits that are written in a layout. -/
def written (layout : Layout) (d : Decimal) : Decimal :=
  if layout.lowest ≤ d.point ∧ d.point ≤ layout.highest then
    if 0 ≤ d.exponent then d.padded else d
  else d

/-- With the digits that are written a decimal denotes the same. -/
theorem value_written (layout : Layout) (d : Decimal) : (d.written layout).value = d.value := by
  rw [written]
  split
  · split
    · exact value_padded ‹_›
    · rfl
  · rfl

/-- **Decimals are written as literals** of the digits that are written, and with the power of ten
of the first digit if with any. -/
theorem exists_write (layout : Layout) (d : Decimal) :
    ∃ l : DecimalLiteral, l.decimal = d.written layout ∧
      (∀ e ∈ l.exponent, e.value = d.point - 1) ∧ l.text = d.write layout := by
  rw [write, written]
  split
  · obtain ⟨l, hl, hexponent, htext⟩ := d.exists_positional
    exact ⟨l, hl, by simp [hexponent], htext⟩
  · exact d.exists_scientific

/-- A decimal that is not too large is written as a literal that is not. -/
theorem isExact_of_written {layout : Layout} {l : DecimalLiteral} (hl : l.decimal = d.written layout)
    (hpower : ∀ e ∈ l.exponent, e.value = d.point - 1) (hexponent : |d.exponent| ≤ 10000)
    (hpoint : |d.point - 1| ≤ 2 ^ 63 - 1) : l.IsExact := by
  constructor
  · intro e he
    have habs : |e.value| = e.digits.value := by
      rw [Exponent.value]
      cases e.sign <;> simp [Sign.apply]
    rw [← hpower e he, habs] at hpoint
    omega
  · show |l.decimal.exponent| ≤ 10000
    rw [hl, written]
    split
    · split
      · show |(-1 : ℤ)| ≤ 10000
        decide
      · exact hexponent
    · exact hexponent

end Decimal

end LogicTerms
