/-
**Fractions and doubles agree.**

A literal with a fractional part is read as a fraction where it is one, otherwise as the nearest
double, and refused if it is neither.  A decimal literal could be read either way: it is a fraction
up to a size, and a double at any size.  Nothing depends on which way is taken, because the double
nearest to the fraction is the double that the text denotes.

Main definitions:

* `Literal.FloatReading` — **what becomes of a text**.

Main results:

* `Literal.readBinary64?_text` — decimal literals as doubles;
* `Literal.readFloat_eq_iff_floatReading` — the reader of fractions and doubles;
* `Literal.reading_of_fractions` — **fractions are read exactly, and in agreement with doubles**.
-/

import LogicTerms.Proofs.Binary64.Decimal
import LogicTerms.Proofs.Literal.Fraction
import Mathlib.Tactic.NormNum

set_option relaxedAutoImplicit false
set_option autoImplicit false

namespace LogicTerms.Literal

variable {token : String} {cs : List Char}

/-! ### Doubles -/

/-- A name does not start with a digit. -/
theorem special?_of_startsWithDigit {negative : Bool} (h : StartsWithDigit 10 cs) :
    special? negative cs = none := by
  have hletters : ∀ d : Digit 10, lower d.char ≠ 'i' ∧ lower d.char ≠ 'n' := by
    rintro ⟨value, capital⟩
    revert value capital
    decide
  obtain ⟨d, rest, rfl⟩ := h
  obtain ⟨hi, hn⟩ := hletters d
  simp [special?, hi, hn]

/-- **Decimal literals are read as the nearest double** of their digits. -/
theorem readBinary64?_text {s : Sign} {l : DecimalLiteral} (h : token.toList = s.text ++ l.text) :
    readBinary64? token = some (.ofDecimal (decide (s = .minus)) l.decimal) := by
  have hdigit := startsWithDigit_text_decimal l
  rw [readBinary64?, h, splitSign_append hdigit]
  simp only [special?_of_startsWithDigit hdigit, looseDecimal?_text, Option.map_some]

/-! ### Fractions and doubles -/

/-- **What becomes of a text** that is read as a fraction or a double. -/
inductive FloatReading (token : String) : Except LiteralError Number → Prop where
  | fraction (l : FractionLiteral) (h : l.text = token.toList) :
      FloatReading token (.ok (.ratio l.value))
  | double (x : Binary64) (hne : ∀ l : FractionLiteral, l.text ≠ token.toList)
      (h : readBinary64? token = some x) : FloatReading token (.ok (.float x))
  | invalid (hne : ∀ l : FractionLiteral, l.text ≠ token.toList)
      (h : readBinary64? token = none) : FloatReading token (.error (.invalidFloat token))

theorem readFraction?_eq_none_iff :
    readFraction? token = none ↔ ∀ l : FractionLiteral, l.text ≠ token.toList := by
  rw [Option.eq_none_iff_forall_ne_some]
  constructor
  · intro h l hl
    exact h l.value (readFraction?_eq_some_iff.2 ⟨l, hl, rfl⟩)
  · intro h q hq
    obtain ⟨l, hl, -⟩ := readFraction?_eq_some_iff.1 hq
    exact h l hl

theorem readFloat_eq_iff_floatReading {o : Except LiteralError Number} :
    readFloat token = o ↔ FloatReading token o := by
  rw [readFloat]
  constructor
  · rintro rfl
    cases hq : readFraction? token with
    | some q =>
        obtain ⟨l, hl, rfl⟩ := readFraction?_eq_some_iff.1 hq
        exact .fraction l hl
    | none =>
        have hne := readFraction?_eq_none_iff.1 hq
        cases hx : readBinary64? token with
        | some x => exact .double x hne hx
        | none => exact .invalid hne hx
  · intro h
    cases h with
    | fraction l hl => rw [readFraction?_eq_some_iff.2 ⟨l, hl, rfl⟩]
    | double x hne hx => simp only [readFraction?_eq_none_iff.2 hne, hx]
    | invalid hne hx => simp only [readFraction?_eq_none_iff.2 hne, hx]

/-- The fraction that a decimal denotes has the double that its text denotes. -/
theorem equal_toBinary64_of_text {s : Sign} {l : DecimalLiteral}
    (h : token.toList = s.text ++ l.text) :
    ∃ x, readBinary64? token = some x ∧
      (Number.ratio (s.apply l.value)).toBinary64.equal x = true := by
  refine ⟨_, readBinary64?_text h, ?_⟩
  rw [Number.toBinary64, Sign.apply_eq_ite, ← l.value_decimal]
  exact Binary64.equal_ofRat_ofDecimal _ l.decimal

/-- **Fractions are read exactly, and in agreement with doubles.**  The texts that are read as
fractions are the fraction literals, each as the number that it denotes; a text that is read as a
fraction or a double becomes a fraction if it can; and where a decimal is read as a fraction, the
double nearest to that is the one that would have been read. -/
theorem reading_of_fractions (token : String) :
    (∀ q : ℚ, readFraction? token = some q ↔
      ∃ l : FractionLiteral, l.text = token.toList ∧ l.value = q) ∧
    (∀ o : Except LiteralError Number, readFloat token = o ↔ FloatReading token o) ∧
    (∀ (s : Sign) (l : DecimalLiteral), l.IsExact → s.text ++ l.text = token.toList →
      readFraction? token = some (s.apply l.value) ∧
      ∃ x, readBinary64? token = some x ∧
        (Number.ratio (s.apply l.value)).toBinary64.equal x = true) := by
  refine ⟨fun q => readFraction?_eq_some_iff, fun o => readFloat_eq_iff_floatReading, ?_⟩
  intro s l hexact h
  exact ⟨readFraction?_eq_some_iff.2 ⟨.decimal s l hexact, h, rfl⟩, equal_toBinary64_of_text h.symm⟩

/-- A decimal with a sign, a point and an exponent. -/
theorem reading_of_fractions_decimal :
    readFraction? "-2.5e-3" = some (-1 / 400) ∧ readFloat "-2.5e-3" = .ok (.ratio (-1 / 400)) ∧
      ∃ x, readBinary64? "-2.5e-3" = some x ∧
        (Number.ratio (-1 / 400)).toBinary64.equal x = true := by
  obtain ⟨-, hfloat, hagree⟩ := reading_of_fractions "-2.5e-3"
  obtain ⟨l, hl⟩ : ∃ l : DecimalLiteral,
    l = ⟨⟨.single 2, some (.single 5)⟩, some ⟨false, .minus, .single 3⟩, .inl rfl⟩ := ⟨_, rfl⟩
  have hexact : l.IsExact := by
    rw [hl]
    exact ⟨fun e he => Option.some.inj he ▸ by decide, by decide⟩
  have hvalue : Sign.minus.apply l.value = -1 / 400 := by
    rw [hl]
    norm_num [Sign.apply, DecimalLiteral.value, DecimalLiteral.power, Mantissa.value,
      Exponent.value, show ((5 : Fin 10) : ℕ) = 5 from rfl, show ((3 : Fin 10) : ℕ) = 3 from rfl]
  have htext : Sign.minus.text ++ l.text = "-2.5e-3".toList := by
    rw [hl]
    decide
  have h := hagree .minus l hexact htext
  rw [hvalue] at h
  refine ⟨h.1, (hfloat _).2 ?_, h.2⟩
  exact hvalue ▸ FloatReading.fraction (.decimal .minus l hexact) htext

end LogicTerms.Literal
