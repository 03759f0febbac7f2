/-
**Strings and numbers are read as they were written.**

A reader that takes a string or a number off the front of a text finds the end of what was written
there: that of a string at its closing quote, and that of a number where nothing follows that could
be part of a number.  Of a string it undoes every escape.  Of a number it takes the digits that are
written, and these start with a zero only if that is the only digit before the point.

Main definitions:

* `Json.EndsNumber` — nothing that a number could go on with;
* `Json.LeadingZero` — a zero before another digit;
* `Decimal.IsPlain` — a decimal that is written without leading zeros.

Main results:

* `Json.readStringBody_flatMap` — **strings are read as they were written**;
* `Json.readMagnitude_text` — decimal literals without leading zeros are read;
* `Json.readNumber_integer`, `Json.readNumber_decimal` — **numbers are read as they were written**.
-/

import LogicTerms.Json.Reader
import LogicTerms.Json.Writer
import LogicTerms.Proofs.Decimal.Text

set_option relaxedAutoImplicit false
set_option autoImplicit false

namespace LogicTerms

open Literal

/-! ### Leading zeros -/

/-- The digits of a number other than zero start with none. -/
theorem exists_decimalDigits_cons {n : ℕ} (hn : n ≠ 0) :
    ∃ c cs, decimalDigits n = c :: cs ∧ c ≠ '0' := by
  induction n using Nat.strongRecOn with
  | ind n ih =>
      by_cases hlt : n < 10
      · refine ⟨n.digitChar, [], ?_, ?_⟩
        · rw [decimalDigits_eq, Nat.toDigits_of_lt_base hlt]
        · interval_cases n <;> first | exact absurd rfl hn | decide
      · obtain ⟨c, cs, hcs, hc⟩ := ih (n / 10) (by omega) (by omega)
        refine ⟨c, cs ++ [(n % 10).digitChar], ?_, hc⟩
        rw [decimalDigits_eq] at hcs ⊢
        rw [Nat.toDigits_of_base_le (by decide) (not_lt.1 hlt), hcs, List.cons_append]

theorem decimalDigits_zero_cons {n : ℕ} {cs : List Char} (h : decimalDigits n = '0' :: cs) :
    n = 0 ∧ cs = [] := by
  by_cases hn : n = 0
  · subst hn
    have hzero : decimalDigits 0 = ['0'] := by rw [decimalDigits_eq]; rfl
    rw [hzero] at h
    exact ⟨rfl, (List.cons.inj h).2.symm⟩
  · obtain ⟨c, ds, hds, hc⟩ := exists_decimalDigits_cons hn
    rw [hds] at h
    exact absurd (List.cons.inj h).1 hc

/-- A decimal that is written without leading zeros: zero does not have zeros before its point. -/
def Decimal.IsPlain (d : Decimal) : Prop := d.coefficient = 0 → d.exponent ≤ 0

/-- The first digit is no zero, unless it is the only one and no zeros follow it. -/
theorem Decimal.IsPlain.digits_cases {d : Decimal} (h : d.IsPlain) :
    (∃ b bs, d.digits = b :: bs ∧ b ≠ '0') ∨ d.digits = ['0'] ∧ d.exponent ≤ 0 := by
  obtain ⟨b, bs, hb⟩ := List.exists_cons_of_ne_nil d.digits_ne_nil
  by_cases hzero : b = '0'
  · subst hzero
    obtain ⟨hn, rfl⟩ := decimalDigits_zero_cons hb
    exact .inr ⟨hb, h hn⟩
  · exact .inl ⟨b, bs, hb, hzero⟩

namespace Json

variable {cs rest : List Char}

/-- The text starts with a zero before another digit. -/
def LeadingZero (cs : List Char) : Prop :=
  ∃ c rest, cs = '0' :: c :: rest ∧ isDigit 10 c = true

theorem LeadingZero.append (h : LeadingZero cs) (rest : List Char) : LeadingZero (cs ++ rest) := by
  obtain ⟨c, ds, rfl, hc⟩ := h
  exact ⟨c, ds ++ rest, rfl, hc⟩

theorem not_leadingZero_decimalDigits (n : ℕ) : ¬ LeadingZero (decimalDigits n) := by
  rintro ⟨c, rest, h, -⟩
  exact nomatch (decimalDigits_zero_cons h).2

theorem not_leadingZero_cons {b : Char} (h : b ≠ '0') : ¬ LeadingZero (b :: cs) := by
  rintro ⟨c, rest, htext, -⟩
  exact h (List.cons.inj htext).1

theorem not_leadingZero_zero_cons {c : Char} (h : isDigit 10 c = false) :
    ¬ LeadingZero ('0' :: c :: cs) := by
  rintro ⟨c, rest, htext, hc⟩
  cases htext
  rw [h] at hc
  cases hc

theorem not_leadingZero_positional {d : Decimal} (h : d.IsPlain) : ¬ LeadingZero d.positional := by
  rw [Decimal.positional]
  split
  · -- nothing but the point follows a zero in front of it
    exact not_leadingZero_zero_cons rfl
  · rename_i hpoint
    split
    · rename_i hexponent
      obtain ⟨b, bs, hb, hne⟩ | ⟨hb, hle⟩ := h.digits_cases
      · rw [hb]
        exact not_leadingZero_cons hne
      · have hnone : d.exponent.toNat = 0 := by omega
        rw [hb, hnone]
        exact not_leadingZero_zero_cons rfl
    · obtain ⟨b, bs, hb, hne⟩ | ⟨hb, hle⟩ := h.digits_cases
      · obtain ⟨k, hk⟩ : ∃ k, d.point.toNat = k + 1 := ⟨d.point.toNat - 1, by omega⟩
        rw [hb, hk]
        exact not_leadingZero_cons hne
      · rw [Decimal.point, hb, List.length_singleton] at hpoint
        omega

theorem not_leadingZero_scientific {d : Decimal} (h : d.IsPlain) : ¬ LeadingZero d.scientific := by
  rw [Decimal.scientific]
  obtain ⟨b, bs, hb, hne⟩ | ⟨hb, -⟩ := h.digits_cases
  · rw [hb]
    exact not_leadingZero_cons hne
  · rw [hb]
    exact not_leadingZero_zero_cons rfl

theorem not_leadingZero_write {d : Decimal} (h : d.IsPlain) (layout : Decimal.Layout) :
    ¬ LeadingZero (d.write layout) := by
  rw [Decimal.write]
  split
  · exact not_leadingZero_positional h
  · exact not_leadingZero_scientific h

/-! ### Numbers -/

/-- The text starts with nothing that a number could go on with. -/
def EndsNumber (cs : List Char) : Prop :=
  ∀ c ∈ cs.head?, isDigit 10 c = false ∧ c ≠ '.' ∧ c ≠ 'e' ∧ c ≠ 'E'

theorem endsNumber_nil : EndsNumber [] := fun _ h => nomatch h

theorem readDigits_text (k : Numeral 10) (h : ∀ c ∈ rest.head?, isDigit 10 c = false) :
    readDigits (k.text ++ rest) = some (k.text, rest) := by
  have hall : ∀ c ∈ k.text, isDigit 10 c = true := fun c hc => Numeral.isDigit_of_mem_decimal hc
  have htake : rest.takeWhile (isDigit 10) = [] := by
    cases rest with
    | nil => rfl
    | cons c rest => rw [List.takeWhile_cons_of_neg (by simp [h c rfl])]
  have hdrop : rest.dropWhile (isDigit 10) = rest := by
    cases rest with
    | nil => rfl
    | cons c rest => rw [List.dropWhile_cons_of_neg (by simp [h c rfl])]
  rw [readDigits, List.takeWhile_append_of_pos hall, List.dropWhile_append_of_pos hall, htake, hdrop,
    List.append_nil, if_neg (by simpa using k.text_ne_nil)]

theorem readWhole_text {k : Numeral 10} (hk : ¬ LeadingZero k.text)
    (h : ∀ c ∈ rest.head?, isDigit 10 c = false) :
    readWhole (k.text ++ rest) = some (k.text, rest) := by
  rw [readWhole, readDigits_text k h]
  split
  · rename_i c cs _ he
    obtain ⟨htext, -⟩ := Prod.mk.inj (Option.some.inj he)
    have hc : isDigit 10 c = true :=
      Numeral.isDigit_of_mem_decimal (htext ▸ List.mem_cons_of_mem _ List.mem_cons_self)
    exact absurd ⟨c, cs, htext, hc⟩ hk
  · rfl

theorem readFraction_text (f : Option (Numeral 10))
    (h : ∀ c ∈ rest.head?, isDigit 10 c = false ∧ c ≠ '.') :
    readFraction ((f.elim [] fun f => '.' :: f.text) ++ rest) =
      some (f.elim [] Numeral.text, rest) := by
  cases f with
  | some f => exact readDigits_text f fun c hc => (h c hc).1
  | none =>
      cases rest with
      | nil => rfl
      | cons c rest =>
          have hc : c ≠ '.' := (h c rfl).2
          unfold readFraction
          split
          · rename_i he
            exact absurd (List.cons.inj he).1 hc
          · rfl

theorem readExponent_text (e : Option Exponent)
    (h : ∀ c ∈ rest.head?, isDigit 10 c = false ∧ c ≠ 'e' ∧ c ≠ 'E') :
    readExponent (e.elim [] Exponent.text ++ rest) = some (e.map Exponent.value, rest) := by
  cases e with
  | some e =>
      have hmark : e.mark = 'e' ∨ e.mark = 'E' := by
        rw [Exponent.mark]
        split
        · exact .inr rfl
        · exact .inl rfl
      have hsplit : splitSign (e.sign.text ++ (e.digits.text ++ rest)) =
          (decide (e.sign = .minus), e.digits.text ++ rest) :=
        splitSign_append ((startsWithDigit_text e.digits).append rest)
      rw [Option.elim_some, Exponent.text, List.cons_append, List.append_assoc, readExponent,
        if_pos hmark, hsplit]
      simp only [readDigits_text e.digits fun c hc => (h c hc).1, Option.map_some,
        e.digits.ofDigits_text (by decide), Exponent.value, Sign.apply_eq_ite]
  | none =>
      cases rest with
      | nil => rfl
      | cons c rest =>
          have hc := (h c rfl).2
          rw [Option.elim_none, List.nil_append, readExponent, if_neg (by simpa using hc)]
          rfl

theorem ofDigits_mantissa (m : Mantissa) :
    ofDigits 10 (m.whole.text ++ m.fraction.elim [] Numeral.text) = m.coefficient.value := by
  obtain ⟨whole, _ | fraction⟩ := m
  · rw [Option.elim_none, List.append_nil, whole.ofDigits_text (by decide)]
    rfl
  · rw [Option.elim_some, ← Numeral.text_append, Numeral.ofDigits_text (by decide)]
    rfl

theorem length_fraction (m : Mantissa) : (m.fraction.elim [] Numeral.text).length = m.places := by
  obtain ⟨whole, _ | fraction⟩ := m
  · rfl
  · exact fraction.length_text

theorem power_eq_getD (l : DecimalLiteral) : (l.exponent.map Exponent.value).getD 0 = l.power := by
  obtain ⟨mantissa, _ | exponent, hmarked⟩ := l <;> rfl

/-- A literal is not an integer, because of its point or its exponent. -/
theorem isEmpty_fraction_and_isNone (l : DecimalLiteral) :
    ((l.mantissa.fraction.elim [] Numeral.text).isEmpty &&
      (l.exponent.map Exponent.value).isNone) = false := by
  obtain ⟨⟨whole, fraction⟩, exponent, hmarked⟩ := l
  cases fraction with
  | some f => simp [f.text_ne_nil]
  | none =>
      cases exponent with
      | some e => rfl
      | none => simp at hmarked

/-- **Decimal literals without leading zeros are read**, up to what a number cannot go on with. -/
theorem readMagnitude_text (negative : Bool) (l : DecimalLiteral) (hl : ¬ LeadingZero l.text)
    (hrest : EndsNumber rest) :
    readMagnitude negative (l.text ++ rest) = some (.decimal negative l.decimal, rest) := by
  have hwhole : ¬ LeadingZero l.mantissa.whole.text := by
    intro h
    rw [DecimalLiteral.text, Mantissa.text, List.append_assoc] at hl
    exact hl (h.append _)
  -- what stands behind the fraction, and behind the digits before the point
  have hexponent : ∀ c ∈ (l.exponent.elim [] Exponent.text ++ rest).head?,
      isDigit 10 c = false ∧ c ≠ '.' := by
    cases l.exponent with
    | none => exact fun c hc => ⟨(hrest c hc).1, (hrest c hc).2.1⟩
    | some e =>
        intro c hc
        have hmark : e.mark = c := Option.some.inj hc
        rw [← hmark, Exponent.mark]
        split <;> decide
  have hfraction : ∀ c ∈ ((l.mantissa.fraction.elim [] fun f => '.' :: f.text) ++
      (l.exponent.elim [] Exponent.text ++ rest)).head?, isDigit 10 c = false := by
    cases l.mantissa.fraction with
    | none => exact fun c hc => (hexponent c hc).1
    | some f =>
        rintro c ⟨⟩
        rfl
  rw [DecimalLiteral.text, Mantissa.text, List.append_assoc, List.append_assoc, readMagnitude,
    readWhole_text hwhole hfraction]
  simp only [Option.bind_eq_bind, Option.bind_some, readFraction_text _ hexponent,
    readExponent_text _ fun c hc => ⟨(hrest c hc).1, (hrest c hc).2.2⟩,
    isEmpty_fraction_and_isNone, ofDigits_mantissa, length_fraction, power_eq_getD]
  rfl

/-- Numerals without leading zeros are read as integers. -/
theorem readMagnitude_numeral (negative : Bool) (k : Numeral 10) (hk : ¬ LeadingZero k.text)
    (hrest : EndsNumber rest) :
    readMagnitude negative (k.text ++ rest) = some (.integer negative k.value, rest) := by
  have hfraction := readFraction_text none fun c hc => ⟨(hrest c hc).1, (hrest c hc).2.1⟩
  have hexponent := readExponent_text none fun c hc => ⟨(hrest c hc).1, (hrest c hc).2.2⟩
  simp only [Option.elim_none, List.nil_append] at hfraction hexponent
  rw [readMagnitude, readWhole_text hk fun c hc => (hrest c hc).1]
  simp only [Option.bind_eq_bind, Option.bind_some, hfraction, hexponent, List.append_nil,
    k.ofDigits_text (by decide)]
  rfl

/-- The sign in front of digits is taken off. -/
theorem readNumber_writeSign (negative : Bool) (h : StartsWithDigit 10 cs) :
    readNumber (writeSign negative ++ cs) = readMagnitude negative cs := by
  cases negative with
  | true => rfl
  | false =>
      have hhead := (startsWithDigit_iff (by decide)).1 h
      rw [writeSign, if_neg Bool.false_ne_true, List.nil_append]
      unfold readNumber
      split
      · exact nomatch hhead
      · rfl

/-- **Integers are read as they were written.** -/
theorem readNumber_integer (negative : Bool) (n : ℕ) (hrest : EndsNumber rest) :
    readNumber (writeSign negative ++ (decimalDigits n ++ rest)) =
      some (.integer negative n, rest) := by
  obtain ⟨k, htext, rfl⟩ := Decimal.exists_numeral n
  have hk : ¬ LeadingZero k.text := htext ▸ not_leadingZero_decimalDigits _
  rw [← htext, readNumber_writeSign negative ((startsWithDigit_text k).append rest),
    readMagnitude_numeral negative k hk hrest]

/-- **Decimals are read as they were written**, with the digits that were written. -/
theorem readNumber_decimal (negative : Bool) {d : Decimal} (hd : d.IsPlain)
    (layout : Decimal.Layout) (hrest : EndsNumber rest) :
    readNumber (writeSign negative ++ (d.write layout ++ rest)) =
      some (.decimal negative (d.written layout), rest) := by
  obtain ⟨l, hl, -, htext⟩ := d.exists_write layout
  have hstart : StartsWithDigit 10 (l.text ++ rest) := by
    rw [DecimalLiteral.text, Mantissa.text, List.append_assoc, List.append_assoc]
    exact (startsWithDigit_text l.mantissa.whole).append _
  have hplain : ¬ LeadingZero l.text := htext ▸ not_leadingZero_write hd layout
  rw [← htext, readNumber_writeSign negative hstart, readMagnitude_text negative l hplain hrest, hl]

/-! ### Strings -/

theorem hexUnit?_of_lt {n : ℕ} (h : n < 256) :
    hexUnit? '0' '0' (Nat.digitChar (n / 16)) (Nat.digitChar (n % 16)) = some n := by
  have hzero : digitValue? '0' = some 0 := rfl
  have hhigh : digitValue? (Nat.digitChar (n / 16)) = some (n / 16) :=
    digitValue?_eq_some_iff.2 ⟨by omega, .inl rfl⟩
  have hlow : digitValue? (Nat.digitChar (n % 16)) = some (n % 16) :=
    digitValue?_eq_some_iff.2 ⟨by omega, .inl rfl⟩
  have hdigits : ['0', '0', Nat.digitChar (n / 16), Nat.digitChar (n % 16)].all (isDigit 16) := by
    simp [isDigit, hzero, hhigh, hlow]
    omega
  rw [hexUnit?, if_pos hdigits]
  simp only [ofDigits, List.foldl_cons, List.foldl_nil, hzero, hhigh, hlow, Option.getD_some]
  congr 1
  omega

/-- A character that stands for itself is read. -/
theorem readStringBody_cons {c : Char} (hquote : c ≠ '"') (hbackslash : c ≠ '\\')
    (hcontrol : ¬ c.toNat < 32) (cs : List Char) :
    readStringBody (c :: cs) = (readStringBody cs).map fun r => (c :: r.1, r.2) := by
  rw [readStringBody.eq_def]
  split
  · rename_i h
    exact nomatch h
  · rename_i h
    exact absurd (List.cons.inj h).1 hquote
  · rename_i h
    exact absurd (List.cons.inj h).1 hbackslash
  · rename_i h
    exact absurd (List.cons.inj h).1 hbackslash
  · rename_i h
    obtain ⟨rfl, rfl⟩ := List.cons.inj h
    rw [if_neg hcontrol]

/-- **A character of a string is read as it was written**, and then the others. -/
theorem readStringBody_writeChar (c : Char) (cs : List Char) :
    readStringBody (writeChar c ++ cs) = (readStringBody cs).map fun r => (c :: r.1, r.2) := by
  unfold writeChar
  split
  · rfl
  · rfl
  · rfl
  · rfl
  · rfl
  · rfl
  · rfl
  · split
    · simp only [List.cons_append, List.nil_append]
      rw [readStringBody, hexUnit?_of_lt (by omega)]
      simp only [Text.ofCodePoint?_toNat]
    · exact readStringBody_cons ‹_› ‹_› ‹_› cs

/-- **Strings are read as they were written**, up to the closing quote. -/
theorem readStringBody_flatMap (cs rest : List Char) :
    readStringBody (cs.flatMap writeChar ++ '"' :: rest) = some (cs, rest) := by
  induction cs with
  | nil => rfl
  | cons c cs ih =>
      rw [List.flatMap_cons, List.append_assoc, readStringBody_writeChar, ih]
      rfl

end Json

end LogicTerms
