/-
**The notations of decimals.**

A decimal literal is a mantissa, which has digits and may have a point with more digits behind it,
and an exponent, which is a numeral behind a mark and an optional sign.  One of the point and the
exponent may be missing, but not both.  It denotes the digits of its mantissa, with those behind the
point as fractions, times the power of ten that its exponent says.

Each part is read as it is written: the text is split at the first mark and then at the first
point, neither of which can be mistaken for a digit.  The reader of exact decimals refuses a literal
only for its size, and the reader of doubles none.

Main definitions:

* `Mantissa`, `Exponent`, `DecimalLiteral` — the notations;
* `DecimalLiteral.text`, `DecimalLiteral.value` — how a decimal is written, and what it denotes;
* `DecimalLiteral.decimal` — its digits and power of ten;
* `DecimalLiteral.IsExact` — the size up to which it is read exactly.

Main results:

* `DecimalLiteral.value_decimal` — the digits and the power of ten are what is denoted;
* `Literal.decimal?_eq_some_iff` — **the decimals that are read exactly**;
* `Literal.looseDecimal?_text` — every decimal literal is read for a double.
-/

import LogicTerms.Literal.Float
import LogicTerms.Proofs.Decimal.Basic
import Mathlib.Data.List.TakeWhile

set_option relaxedAutoImplicit false
set_option autoImplicit false

namespace LogicTerms

/-! ### Decimal literals -/

/-- Digits, and more digits behind a point. -/
structure Mantissa where
  /-- The digits before the point. -/
  whole : Numeral 10
  /-- The digits behind it. -/
  fraction : Option (Numeral 10)

namespace Mantissa

/-- How a mantissa is written. -/
def text (m : Mantissa) : List Char :=
  m.whole.text ++ m.fraction.elim [] fun f => '.' :: f.text

/-- The number of digits behind the point. -/
def places (m : Mantissa) : ℕ := m.fraction.elim 0 fun f => f.digits.length

/-- All digits, without the point. -/
def coefficient (m : Mantissa) : Numeral 10 := m.fraction.elim m.whole m.whole.append

/-- The number that a mantissa denotes. -/
def value (m : Mantissa) : ℚ :=
  m.whole.value + m.fraction.elim 0 fun f => (f.value : ℚ) / 10 ^ f.digits.length

theorem value_eq_div (m : Mantissa) : m.value = m.coefficient.value / 10 ^ m.places := by
  obtain ⟨whole, _ | fraction⟩ := m
  · simp [value, coefficient, places]
  · have hpow : (10 : ℚ) ^ fraction.digits.length ≠ 0 := pow_ne_zero _ (by decide)
    simp only [value, coefficient, places, Option.elim_some, Numeral.value_append]
    push_cast
    rw [add_div, mul_div_cancel_right₀ _ hpow]

end Mantissa

/-- A mark, an optional sign and digits. -/
structure Exponent where
  /-- Whether the mark is a capital. -/
  capital : Bool
  /-- The sign. -/
  sign : Sign
  /-- The digits. -/
  digits : Numeral 10

namespace Exponent

/-- The mark of an exponent. -/
def mark (e : Exponent) : Char := if e.capital then 'E' else 'e'

/-- How an exponent is written. -/
def text (e : Exponent) : List Char := e.mark :: (e.sign.text ++ e.digits.text)

/-- The power of ten that an exponent denotes. -/
def value (e : Exponent) : ℤ := e.sign.apply (e.digits.value : ℤ)

end Exponent

/-- A mantissa with a point, an exponent or both. -/
structure DecimalLiteral where
  /-- The digits and the point. -/
  mantissa : Mantissa
  /-- The exponent. -/
  exponent : Option Exponent
  /-- Digits alone are not a decimal. -/
  marked : mantissa.fraction.isSome ∨ exponent.isSome

namespace DecimalLiteral

/-- How a decimal is written. -/
def text (l : DecimalLiteral) : List Char := l.mantissa.text ++ l.exponent.elim [] Exponent.text

/-- The power of ten that the exponent denotes, or one. -/
def power (l : DecimalLiteral) : ℤ := l.exponent.elim 0 Exponent.value

/-- The number that a decimal denotes. -/
def value (l : DecimalLiteral) : ℚ := l.mantissa.value * (10 : ℚ) ^ l.power

/-- All digits, and the power of ten of the last one. -/
def decimal (l : DecimalLiteral) : Decimal :=
  ⟨l.mantissa.coefficient.value, l.power - l.mantissa.places⟩

/-- A decimal whose exponent, as it is written and with the point behind the last digit, is not too
large to be read exactly. -/
def IsExact (l : DecimalLiteral) : Prop :=
  (∀ e ∈ l.exponent, e.digits.value ≤ 2 ^ 63 - 1) ∧ |l.power - l.mantissa.places| ≤ 10000

/-- The digits and the power of ten are what is denoted. -/
theorem value_decimal (l : DecimalLiteral) : l.decimal.value = l.value := by
  rw [Decimal.value_eq_zpow, decimal, value, Mantissa.value_eq_div, zpow_sub₀ (by decide),
    zpow_natCast]
  ring

end DecimalLiteral

namespace Literal

variable {cs : List Char} {p : Char → Bool}

/-! ### Splitting -/

theorem splitAt_of_forall (h : ∀ c ∈ cs, p c = false) : splitAt p cs = (cs, none) := by
  have htake : cs.takeWhile (!p ·) = cs := List.takeWhile_eq_self_iff.2 (by simpa using h)
  have hdrop : cs.dropWhile (!p ·) = [] := List.dropWhile_eq_nil_iff.2 (by simpa using h)
  rw [splitAt, htake, hdrop]
  rfl

theorem splitAt_append_cons {c : Char} {rest : List Char} (h : ∀ b ∈ cs, p b = false)
    (hc : p c = true) : splitAt p (cs ++ c :: rest) = (cs, some rest) := by
  have hall : ∀ b ∈ cs, (!p b) = true := by simpa using h
  rw [splitAt, List.takeWhile_append_of_pos hall, List.dropWhile_append_of_pos hall,
    List.takeWhile_cons_of_neg (by simp [hc]), List.dropWhile_cons_of_neg (by simp [hc]),
    List.append_nil]
  rfl

/-- A text is split at the first character of a kind, or not at all. -/
theorem splitAt_cases (p : Char → Bool) (cs : List Char) :
    ((∀ c ∈ cs, p c = false) ∧ splitAt p cs = (cs, none)) ∨
      ∃ before c rest, cs = before ++ c :: rest ∧ (∀ b ∈ before, p b = false) ∧ p c = true ∧
        splitAt p cs = (before, some rest) := by
  by_cases h : ∀ c ∈ cs, p c = false
  · exact .inl ⟨h, splitAt_of_forall h⟩
  · have hdrop : cs.dropWhile (!p ·) ≠ [] := by
      rw [Ne, List.dropWhile_eq_nil_iff]
      simpa using h
    obtain ⟨c, rest, hrest⟩ := List.exists_cons_of_ne_nil hdrop
    have hbefore : ∀ b ∈ cs.takeWhile (!p ·), p b = false := by
      intro b hb
      simpa using List.mem_takeWhile_imp hb
    have hc : p c = true := by
      have := List.head_dropWhile_not (!p ·) hdrop
      simpa [hrest] using this
    have hcs : cs = cs.takeWhile (!p ·) ++ c :: rest := by
      rw [← hrest, List.takeWhile_append_dropWhile]
    exact .inr ⟨_, c, rest, hcs, hbefore, hc, by
      conv_lhs => rw [hcs]
      exact splitAt_append_cons hbefore hc⟩

/-! ### The parts -/

/-- A numeral behind an optional sign. -/
theorem splitSign_natural?_iff {negative : Bool} {n : ℕ} :
    (∃ digits, splitSign cs = (negative, digits) ∧ natural? digits = some n) ↔
      ∃ (s : Sign) (k : Numeral 10), s.text ++ k.text = cs ∧ decide (s = .minus) = negative ∧
        k.value = n := by
  constructor
  · rintro ⟨digits, hsplit, hn⟩
    obtain ⟨s, hs, hminus⟩ := exists_sign cs
    rw [hsplit] at hs hminus
    obtain ⟨k, rfl, hvalue⟩ := natural?_eq_some_iff.1 hn
    exact ⟨s, k, hs.symm, hminus.symm, hvalue⟩
  · rintro ⟨s, k, rfl, rfl, rfl⟩
    exact ⟨k.text, splitSign_append (startsWithDigit_text k), natural?_text k⟩

theorem exponent?_eq_some_iff {i : ℤ} :
    exponent? cs = some i ↔ ∃ (s : Sign) (k : Numeral 10), s.text ++ k.text = cs ∧
      k.value ≤ 2 ^ 63 - 1 ∧ s.apply (k.value : ℤ) = i := by
  constructor
  · intro h
    rw [exponent?] at h
    split at h
    rename_i negative digits hsplit
    cases hn : natural? digits with
    | none => simp [hn] at h
    | some n =>
        obtain ⟨s, k, hcs, hminus, rfl⟩ := splitSign_natural?_iff.1 ⟨digits, hsplit, hn⟩
        simp only [hn] at h
        split at h
        · refine ⟨s, k, hcs, ‹_›, ?_⟩
          rw [Sign.apply_eq_ite, hminus]
          exact Option.some.inj h
        · exact nomatch h
  · rintro ⟨s, k, hcs, hle, rfl⟩
    obtain ⟨digits, hsplit, hn⟩ := splitSign_natural?_iff.2 ⟨s, k, hcs, rfl, rfl⟩
    simp only [exponent?, hsplit, hn]
    rw [Sign.apply_eq_ite]
    exact if_pos hle

theorem pointParts?_eq_some_iff {needed : Bool} {w f : List Char} :
    pointParts? needed cs = some (w, f) ↔ (∀ c ∈ w, c ≠ '.') ∧
      (cs = w ++ '.' :: f ∧ f ≠ [] ∨ cs = w ∧ f = [] ∧ needed = false) := by
  rw [pointParts?]
  constructor
  · intro h
    obtain ⟨hnone, hsplit⟩ | ⟨before, c, rest, hcs, hbefore, hc, hsplit⟩ :=
      splitAt_cases (· == '.') cs
    · rw [hsplit] at h
      cases needed with
      | true => exact nomatch h
      | false =>
          cases h
          exact ⟨by simpa using hnone, .inr ⟨rfl, rfl, rfl⟩⟩
    · rw [hsplit] at h
      cases rest with
      | nil => exact nomatch h
      | cons e rest =>
          cases h
          rw [beq_iff_eq.1 hc] at hcs
          exact ⟨by simpa using hbefore, .inl ⟨hcs, List.cons_ne_nil e rest⟩⟩
  · rintro ⟨hw, ⟨rfl, hf⟩ | ⟨rfl, rfl, rfl⟩⟩
    · rw [splitAt_append_cons (by simpa using hw) (by decide)]
      simp [hf]
    · rw [splitAt_of_forall (by simpa using hw)]
      rfl

theorem scaled?_eq_some_iff {w f : List Char} {i : ℤ} {d : Decimal} :
    scaled? w f i = some d ↔ w ≠ [] ∧ |i - f.length| ≤ 10000 ∧
      ∃ n, natural? (w ++ f) = some n ∧ ⟨n, i - f.length⟩ = d := by
  have hlimit : (i - f.length).natAbs ≤ exponentLimit.natAbs ↔ |i - f.length| ≤ 10000 := by
    rw [exponentLimit, Int.abs_eq_natAbs]
    omega
  rw [scaled?, ← hlimit]
  cases w with
  | nil => simp
  | cons c w => cases natural? (c :: w ++ f) <;> simp

/-! ### The mantissa -/

/-- A mantissa is read with its digits on both sides of the point. -/
theorem mantissa_eq_some_iff {needed : Bool} {i : ℤ} {d : Decimal} :
    ((pointParts? needed cs).bind fun parts => scaled? parts.1 parts.2 i) = some d ↔
      ∃ m : Mantissa, m.text = cs ∧ (needed = true → m.fraction.isSome) ∧
        |i - m.places| ≤ 10000 ∧ ⟨m.coefficient.value, i - m.places⟩ = d := by
  rw [Option.bind_eq_some_iff]
  constructor
  · rintro ⟨⟨w, f⟩, hparts, hscaled⟩
    obtain ⟨-, hparts⟩ := pointParts?_eq_some_iff.1 hparts
    obtain ⟨hw, hlimit, n, hn, rfl⟩ := scaled?_eq_some_iff.1 hscaled
    obtain ⟨k, hk, rfl⟩ := natural?_eq_some_iff.1 hn
    have hdigits : ∀ c ∈ w ++ f, isDigit 10 c = true :=
      fun c hc => Numeral.isDigit_of_mem_decimal (hk ▸ hc)
    obtain ⟨whole, rfl, -⟩ :=
      Numeral.exists_of_digits hw fun c hc => hdigits c (List.mem_append_left f hc)
    rcases hparts with ⟨rfl, hf⟩ | ⟨rfl, rfl, rfl⟩
    · obtain ⟨fraction, rfl, -⟩ :=
        Numeral.exists_of_digits hf fun c hc => hdigits c (List.mem_append_right whole.text hc)
      have hvalue : k.value = (whole.append fraction).value :=
        Numeral.value_eq_of_text_eq (hk.trans (Numeral.text_append whole fraction).symm)
      rw [Numeral.length_text] at hlimit ⊢
      exact ⟨⟨whole, some fraction⟩, rfl, fun _ => rfl, hlimit, by rw [hvalue]; rfl⟩
    · have hvalue : k.value = whole.value :=
        Numeral.value_eq_of_text_eq (hk.trans (List.append_nil _))
      exact ⟨⟨whole, none⟩, List.append_nil _, by simp, hlimit, by rw [hvalue]; rfl⟩
  · rintro ⟨⟨whole, fraction⟩, rfl, hneeded, hlimit, rfl⟩
    have hpoint : ∀ c ∈ whole.text, c ≠ '.' := fun c hc => Numeral.ne_of_mem_decimal hc rfl
    cases fraction with
    | none =>
        cases needed with
        | true => exact nomatch hneeded rfl
        | false =>
            refine ⟨(whole.text, []), pointParts?_eq_some_iff.2 ⟨hpoint, .inr ⟨?_, rfl, rfl⟩⟩, ?_⟩
            · exact List.append_nil _
            · refine scaled?_eq_some_iff.2 ⟨whole.text_ne_nil, hlimit, whole.value, ?_, rfl⟩
              rw [List.append_nil, natural?_text]
    | some fraction =>
        refine ⟨(whole.text, fraction.text), pointParts?_eq_some_iff.2 ⟨hpoint, .inl ?_⟩, ?_⟩
        · exact ⟨rfl, fraction.text_ne_nil⟩
        · rw [scaled?_eq_some_iff, Numeral.length_text, ← Numeral.text_append]
          exact ⟨whole.text_ne_nil, hlimit, _, natural?_text _, rfl⟩

/-! ### Decimals -/

/-- The mark of an exponent. -/
def isExponentMark (c : Char) : Bool := c == 'e' || c == 'E'

theorem isExponentMark_iff {c : Char} :
    isExponentMark c = true ↔ ∃ capital : Bool, (if capital then 'E' else 'e') = c := by
  rw [isExponentMark, Bool.or_eq_true, beq_iff_eq, beq_iff_eq]
  constructor
  · rintro (rfl | rfl)
    · exact ⟨false, rfl⟩
    · exact ⟨true, rfl⟩
  · rintro ⟨capital, rfl⟩
    cases capital <;> decide

theorem mem_text_mantissa {m : Mantissa} {c : Char} (h : c ∈ m.text) :
    isDigit 10 c = true ∨ c = '.' := by
  obtain ⟨whole, fraction⟩ := m
  rcases List.mem_append.1 h with h | h
  · exact .inl (Numeral.isDigit_of_mem_decimal h)
  · cases fraction with
    | none => exact nomatch h
    | some f =>
        rcases List.mem_cons.1 h with rfl | h
        · exact .inr rfl
        · exact .inl (Numeral.isDigit_of_mem_decimal h)

theorem not_isExponentMark_of_mem_text {m : Mantissa} {c : Char} (h : c ∈ m.text) :
    isExponentMark c = false := by
  refine Bool.eq_false_iff.2 fun hmark => ?_
  obtain ⟨capital, rfl⟩ := isExponentMark_iff.1 hmark
  rcases mem_text_mantissa h with h | h
  · cases capital <;> exact nomatch h
  · cases capital <;> exact nomatch h

/-- The characters of a decimal literal. -/
theorem mem_text_decimal {l : DecimalLiteral} {c : Char} (h : c ∈ l.text) :
    isDigit 10 c = true ∨ c ∈ ['.', 'e', 'E', '+', '-'] := by
  rcases List.mem_append.1 h with h | h
  · rcases mem_text_mantissa h with h | rfl
    · exact .inl h
    · exact .inr List.mem_cons_self
  · cases he : l.exponent with
    | none => exact nomatch he ▸ h
    | some e =>
        rw [he] at h
        rcases List.mem_cons.1 h with rfl | h
        · rw [Exponent.mark]
          split <;> decide
        · rcases List.mem_append.1 h with h | h
          · cases hs : e.sign <;> simp [hs, Sign.text] at h <;> simp [h]
          · exact .inl (Numeral.isDigit_of_mem_decimal h)

/-- The mark of the exponent is where a decimal literal is split. -/
theorem splitAt_text (l : DecimalLiteral) :
    splitAt isExponentMark l.text =
      (l.mantissa.text, l.exponent.map fun e => e.sign.text ++ e.digits.text) := by
  have hall : ∀ c ∈ l.mantissa.text, isExponentMark c = false :=
    fun c hc => not_isExponentMark_of_mem_text hc
  rw [DecimalLiteral.text]
  cases l.exponent with
  | none =>
      rw [Option.elim_none, List.append_nil, splitAt_of_forall hall]
      rfl
  | some e => exact splitAt_append_cons hall (isExponentMark_iff.2 ⟨e.capital, rfl⟩)

theorem decimal?_of_some {m rest : List Char} (h : splitAt isExponentMark cs = (m, some rest)) :
    decimal? cs = (exponent? rest).bind fun i =>
      (pointParts? false m).bind fun parts => scaled? parts.1 parts.2 i := by
  rw [decimal?, show (fun c => c == 'e' || c == 'E') = isExponentMark from rfl, h]
  rfl

theorem decimal?_of_none {m : List Char} (h : splitAt isExponentMark cs = (m, none)) :
    decimal? cs = (pointParts? true m).bind fun parts => scaled? parts.1 parts.2 0 := by
  rw [decimal?, show (fun c => c == 'e' || c == 'E') = isExponentMark from rfl, h]
  rfl

/-- **The decimals that are read exactly** are the decimal literals up to a size. -/
theorem decimal?_eq_some_iff {d : Decimal} :
    decimal? cs = some d ↔ ∃ l : DecimalLiteral, l.text = cs ∧ l.IsExact ∧ l.decimal = d := by
  constructor
  · intro h
    rcases splitAt_cases isExponentMark cs with ⟨-, hsplit⟩ | ⟨before, c, rest, rfl, -, hc, hsplit⟩
    · rw [decimal?_of_none hsplit] at h
      obtain ⟨m, rfl, hpoint, hlimit, rfl⟩ := mantissa_eq_some_iff.1 h
      exact ⟨⟨m, none, .inl (hpoint rfl)⟩, List.append_nil _, ⟨by simp, hlimit⟩, rfl⟩
    · rw [decimal?_of_some hsplit, Option.bind_eq_some_iff] at h
      obtain ⟨i, hi, h⟩ := h
      obtain ⟨m, rfl, -, hlimit, rfl⟩ := mantissa_eq_some_iff.1 h
      obtain ⟨s, k, rfl, hle, rfl⟩ := exponent?_eq_some_iff.1 hi
      obtain ⟨capital, rfl⟩ := isExponentMark_iff.1 hc
      refine ⟨⟨m, some ⟨capital, s, k⟩, .inr rfl⟩, rfl, ⟨fun e he => ?_, hlimit⟩, rfl⟩
      exact Option.some.inj he ▸ hle
  · rintro ⟨⟨m, exponent, hmarked⟩, rfl, ⟨hsize, hlimit⟩, rfl⟩
    have hsplit := splitAt_text ⟨m, exponent, hmarked⟩
    cases exponent with
    | none =>
        rw [decimal?_of_none hsplit]
        refine mantissa_eq_some_iff.2 ⟨m, rfl, fun _ => ?_, hlimit, rfl⟩
        exact hmarked.resolve_right (by simp)
    | some e =>
        rw [decimal?_of_some hsplit, Option.bind_eq_some_iff]
        exact ⟨e.value, exponent?_eq_some_iff.2 ⟨e.sign, e.digits, rfl, hsize e rfl, rfl⟩,
          mantissa_eq_some_iff.2 ⟨m, rfl, by simp, hlimit, rfl⟩⟩

theorem anyExponent?_text (e : Option Exponent) :
    anyExponent? (e.map fun e => e.sign.text ++ e.digits.text) =
      some (e.elim 0 Exponent.value) := by
  cases e with
  | none => rfl
  | some e =>
      have hsplit := splitSign_append (s := e.sign) (startsWithDigit_text e.digits)
      rw [Option.map_some, anyExponent?]
      simp only [hsplit, natural?_text, Option.elim_some, Exponent.value, Sign.apply_eq_ite]
      rfl

/-- The point is where a mantissa is split. -/
theorem splitAt_text_mantissa (m : Mantissa) :
    splitAt (· == '.') m.text = (m.whole.text, m.fraction.map Numeral.text) := by
  have hall : ∀ c ∈ m.whole.text, (c == '.') = false :=
    fun c hc => beq_false_of_ne (Numeral.ne_of_mem_decimal hc rfl)
  rw [Mantissa.text]
  cases m.fraction with
  | none =>
      rw [Option.elim_none, List.append_nil, splitAt_of_forall hall]
      rfl
  | some f => exact splitAt_append_cons hall rfl

/-- **Every decimal literal is read for a double**, of whatever size. -/
theorem looseDecimal?_text (l : DecimalLiteral) : looseDecimal? l.text = some l.decimal := by
  have hdigits :
      natural? (l.mantissa.whole.text ++ (l.mantissa.fraction.map Numeral.text).getD []) =
        some l.mantissa.coefficient.value := by
    rw [Mantissa.coefficient]
    cases l.mantissa.fraction with
    | none => exact (List.append_nil l.mantissa.whole.text).symm ▸ natural?_text _
    | some f => exact Numeral.text_append l.mantissa.whole f ▸ natural?_text _
  have hplaces : ((l.mantissa.fraction.map Numeral.text).getD []).length = l.mantissa.places := by
    rw [Mantissa.places]
    cases l.mantissa.fraction with
    | none => rfl
    | some f => exact f.length_text
  rw [looseDecimal?, show (fun c => c == 'e' || c == 'E') = isExponentMark from rfl, splitAt_text]
  simp only [anyExponent?_text, splitAt_text_mantissa, hdigits, hplaces]
  rfl

end Literal

end LogicTerms
