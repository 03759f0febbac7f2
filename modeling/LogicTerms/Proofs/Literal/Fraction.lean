/-
**The notations of exact fractions.**

A fraction literal is a quotient of two numerals, of which the second is not zero, or a decimal
literal that is not too large, behind an optional sign.  The reader of fractions takes these texts
and no others.  It reads a quotient wherever there is a division mark, which no decimal has, so the
two notations are never confused.

Main definitions:

* `FractionLiteral` — a fraction literal;
* `FractionLiteral.text`, `FractionLiteral.value` — how it is written, and what it denotes.

Main results:

* `Literal.quotient?_eq_some_iff` — the quotients of numerals;
* `Literal.readFraction?_eq_some_iff` — **the texts that are read as fractions**.
-/

import LogicTerms.Proofs.Literal.Decimal

set_option relaxedAutoImplicit false
set_option autoImplicit false

namespace LogicTerms

/-! ### Fraction literals -/

/-- A quotient or a decimal, behind an optional sign. -/
inductive FractionLiteral where
  | quotient (sign : Sign) (numerator : Numeral 10) (letter : Bool) (denominator : Numeral 10)
      (ne_zero : denominator.value ≠ 0)
  | decimal (sign : Sign) (literal : DecimalLiteral) (exact : literal.IsExact)

namespace FractionLiteral

/-- The division mark of a quotient is a letter or not. -/
def mark (letter : Bool) : Char := if letter then 'r' else '/'

/-- How a fraction is written. -/
def text : FractionLiteral → List Char
  | quotient s n letter d _ => s.text ++ (n.text ++ mark letter :: d.text)
  | decimal s l _ => s.text ++ l.text

/-- The number that a fraction denotes. -/
def value : FractionLiteral → ℚ
  | quotient s n _ d _ => s.apply ((n.value : ℚ) / d.value)
  | decimal s l _ => s.apply l.value

end FractionLiteral

namespace Literal

variable {cs : List Char}

/-! ### Division marks -/

/-- The mark of a division. -/
def isDivisionMark (c : Char) : Bool := c == '/' || c == 'r'

theorem isDivisionMark_iff {c : Char} :
    isDivisionMark c = true ↔ ∃ letter : Bool, FractionLiteral.mark letter = c := by
  rw [isDivisionMark, Bool.or_eq_true, beq_iff_eq, beq_iff_eq]
  constructor
  · rintro (rfl | rfl)
    · exact ⟨false, rfl⟩
    · exact ⟨true, rfl⟩
  · rintro ⟨letter, rfl⟩
    cases letter <;> decide

theorem not_isDivisionMark_of_isDigit {c : Char} (h : isDigit 10 c = true) :
    isDivisionMark c = false := by
  refine Bool.eq_false_iff.2 fun hmark => ?_
  obtain ⟨letter, rfl⟩ := isDivisionMark_iff.1 hmark
  cases letter <;> exact nomatch h

theorem not_isDivisionMark_of_mem_numeral {n : Numeral 10} {c : Char} (h : c ∈ n.text) :
    isDivisionMark c = false :=
  not_isDivisionMark_of_isDigit (Numeral.isDigit_of_mem_decimal h)

theorem not_isDivisionMark_of_mem_text {l : DecimalLiteral} {c : Char} (h : c ∈ l.text) :
    isDivisionMark c = false := by
  have hmarks : ∀ e ∈ ['.', 'e', 'E', '+', '-'], isDivisionMark e = false :=
    forall_mem_of_all (by decide)
  rcases mem_text_decimal h with h | h
  · exact not_isDivisionMark_of_isDigit h
  · exact hmarks c h

/-! ### Reading -/

theorem startsWithDigit_text_decimal (l : DecimalLiteral) : StartsWithDigit 10 l.text :=
  ((startsWithDigit_text l.mantissa.whole).append _).append _

theorem quotient?_eq_some_iff {ds : List Char} {q : ℚ} :
    quotient? cs ds = some q ↔ ∃ n d : Numeral 10, n.text = cs ∧ d.text = ds ∧ d.value ≠ 0 ∧
      (n.value : ℚ) / d.value = q := by
  have hquotient : quotient? cs ds = (natural? cs).bind fun n => (natural? ds).bind fun d =>
      if d = 0 then none else some (mkRat n d) := rfl
  rw [hquotient, Option.bind_eq_some_iff]
  constructor
  · rintro ⟨n, hn, h⟩
    obtain ⟨d, hd, h⟩ := Option.bind_eq_some_iff.1 h
    obtain ⟨n, rfl, rfl⟩ := natural?_eq_some_iff.1 hn
    obtain ⟨d, rfl, rfl⟩ := natural?_eq_some_iff.1 hd
    split at h
    · exact nomatch h
    · refine ⟨n, d, rfl, rfl, ‹_›, ?_⟩
      rw [← Option.some.inj h, Rat.mkRat_eq_div, Int.cast_natCast]
  · rintro ⟨n, d, rfl, rfl, hd, rfl⟩
    refine ⟨n.value, natural?_text n, ?_⟩
    rw [natural?_text, Option.bind_some, if_neg hd, Rat.mkRat_eq_div, Int.cast_natCast]

/-- The magnitude that is read behind a sign. -/
theorem readFraction?_eq (token : String) :
    readFraction? token = (match splitAt isDivisionMark (splitSign token.toList).2 with
      | (numerator, some denominator) => quotient? numerator denominator
      | (_, none) => (decimal? (splitSign token.toList).2).map Decimal.value).map
        fun q => if (splitSign token.toList).1 then -q else q := rfl

/-- **The texts that are read as fractions** are the fraction literals, and what is read is the
number that they denote. -/
theorem readFraction?_eq_some_iff {token : String} {q : ℚ} :
    readFraction? token = some q ↔ ∃ l : FractionLiteral, l.text = token.toList ∧ l.value = q := by
  rw [readFraction?_eq]
  constructor
  · intro h
    obtain ⟨s, htext, hminus⟩ := exists_sign token.toList
    generalize (splitSign token.toList).2 = body at *
    rw [hminus] at h
    obtain ⟨magnitude, hmagnitude, rfl⟩ := Option.map_eq_some_iff.1 h
    rw [htext, ← Sign.apply_eq_ite]
    obtain ⟨-, hsplit⟩ | ⟨before, c, rest, rfl, -, hc, hsplit⟩ := splitAt_cases isDivisionMark body
    · rw [hsplit] at hmagnitude
      obtain ⟨d, hd, rfl⟩ := Option.map_eq_some_iff.1 hmagnitude
      obtain ⟨l, rfl, hexact, rfl⟩ := decimal?_eq_some_iff.1 hd
      exact ⟨.decimal s l hexact, rfl, by rw [l.value_decimal]; rfl⟩
    · rw [hsplit] at hmagnitude
      obtain ⟨n, d, rfl, rfl, hd, rfl⟩ := quotient?_eq_some_iff.1 hmagnitude
      obtain ⟨letter, rfl⟩ := isDivisionMark_iff.1 hc
      exact ⟨.quotient s n letter d hd, rfl, rfl⟩
  · rintro ⟨l, htext, rfl⟩
    rw [← htext]
    cases l with
    | quotient s n letter d hd =>
        rw [FractionLiteral.text, splitSign_append ((startsWithDigit_text n).append _),
          splitAt_append_cons (fun c hc => not_isDivisionMark_of_mem_numeral hc)
            (isDivisionMark_iff.2 ⟨letter, rfl⟩)]
        simp only [quotient?_eq_some_iff.2 ⟨n, d, rfl, rfl, hd, rfl⟩, Option.map_some,
          FractionLiteral.value, Sign.apply_eq_ite]
    | decimal s l hexact =>
        rw [FractionLiteral.text, splitSign_append (startsWithDigit_text_decimal l),
          splitAt_of_forall fun c hc => not_isDivisionMark_of_mem_text hc]
        simp only [decimal?_eq_some_iff.2 ⟨l, rfl, hexact, rfl⟩, Option.map_some,
          FractionLiteral.value, Sign.apply_eq_ite, l.value_decimal]

end Literal

end LogicTerms
