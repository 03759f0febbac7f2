/-
**The texts of numbers.**

The text of a number says all about it: its sign, its kind and its digits.  A ratio is the only
number with a division mark and an integer the only one with nothing but digits behind its sign, so
the kind can be told from the text, and the digits of each kind are read by the reader of its
literals.  A double has the text of the shortest decimal, which reads back as the double itself, and
so with the sign of a zero.

Main definitions:

* `Number.IsFinite` — a number that has a value;
* `Number.ofText?` — the number that a text denotes.

Main results:

* `Number.isFinite_or_word` — the numbers that are written as words;
* `Number.exists_body` — the text of a number starts with a sign and a digit;
* `Number.ofText?_text` — **a number is denoted by its text**;
* `Number.text_inj` — different numbers have different texts.
-/

import LogicTerms.Number.Text
import LogicTerms.Proofs.Binary64.Shortest
import LogicTerms.Proofs.Decimal.Text
import LogicTerms.Proofs.Literal.Fraction

set_option relaxedAutoImplicit false
set_option autoImplicit false

namespace LogicTerms

open Literal

theorem Sign.apply_div (s : Sign) (a b : ℕ) :
    s.apply ((a : ℚ) / b) = (s.apply (a : ℤ) : ℤ) / (b : ℚ) := by
  cases s with
  | minus => simp [apply, neg_div]
  | none => rfl
  | plus => rfl

/-! ### Doubles -/

/-- A finite double is written as a decimal literal behind a sign that reads back as it, and that
is not too large to be read exactly. -/
theorem Binary64.exists_text {x : Binary64} (h : x.isFinite = true) :
    ∃ (s : Sign) (l : DecimalLiteral), s.text ++ l.text = x.text ∧
      ofDecimal (decide (s = .minus)) l.decimal = x ∧ l.IsExact := by
  have hlt : x.magnitude < infinityMagnitude := of_decide_eq_true h
  have hnan : x.isNaN = false := decide_eq_false (by omega)
  have hinfinite : x.isInfinite = false := beq_false_of_ne (by omega)
  have htext : x.text = x.writeFinite termLayout := by
    rw [text, hnan, hinfinite]
    rfl
  obtain ⟨l, hdecimal, hpower, hl⟩ := Decimal.exists_write termLayout (shortest x.magnitude)
  have hvalue : l.decimal.value = (shortest x.magnitude).value :=
    hdecimal ▸ Decimal.value_written termLayout _
  have hread : ofDecimal x.negative l.decimal = x :=
    (ofDecimal_congr hvalue).trans (ofDecimal_shortest h)
  obtain ⟨hexponent, hpoint⟩ := size_shortest h
  have hexact : l.IsExact :=
    Decimal.isExact_of_written hdecimal hpower (hexponent.trans (by decide))
      (hpoint.trans (by decide))
  rw [htext, writeFinite, ← hl]
  cases hs : x.negative with
  | true =>
      rw [hs] at hread
      exact ⟨.minus, l, rfl, hread, hexact⟩
  | false =>
      rw [hs] at hread
      exact ⟨.none, l, rfl, hread, hexact⟩

namespace Number

/-- Not an infinity and not a NaN. -/
def IsFinite : Number → Prop
  | float x => x.isFinite = true
  | _ => True

/-! ### Numbers that are written as words -/

/-- A number without a value is an infinity or a NaN. -/
theorem isFinite_or_word (n : Number) :
    n.IsFinite ∨ n = float (.infinity false) ∨ n = float (.infinity true) ∨
      ∃ x : Binary64, n = float x ∧ x.isNaN = true := by
  cases n with
  | int i => exact .inl trivial
  | ratio q => exact .inl trivial
  | float x =>
      rcases x.isFinite_or with h | h | h
      · exact .inl h
      · have hx := Binary64.eq_infinity_of_isInfinite h
        cases hsign : x.negative with
        | false => exact .inr (.inl (congrArg float (hsign ▸ hx)))
        | true => exact .inr (.inr (.inl (congrArg float (hsign ▸ hx))))
      · exact .inr (.inr (.inr ⟨x, rfl, h⟩))

theorem not_isFinite_infinity {negative : Bool} : ¬ (float (.infinity negative)).IsFinite := by
  intro h
  have hlt : Binary64.infinityMagnitude < Binary64.infinityMagnitude := of_decide_eq_true h
  exact lt_irrefl _ hlt

theorem not_isFinite_of_isNaN {x : Binary64} (h : x.isNaN = true) : ¬ (float x).IsFinite := by
  intro hfinite
  have hlt : x.magnitude < Binary64.infinityMagnitude := of_decide_eq_true hfinite
  have hgt : Binary64.infinityMagnitude < x.magnitude := of_decide_eq_true h
  omega

/-- Every NaN is written alike. -/
theorem text_of_isNaN {x : Binary64} (h : x.isNaN = true) : (float x).text = ['n', 'a', 'n'] := by
  rw [text, Binary64.text, if_pos h]

/-! ### Reading -/

/-- The number that a text behind a sign denotes. -/
def ofBody? (negative : Bool) (body : List Char) : Option Number :=
  match splitAt isDivisionMark body with
  | (numerator, some denominator) =>
    (quotient? numerator denominator).map fun q => ratio (if negative then -q else q)
  | (_, none) =>
    match natural? body with
    | some n => some (int (if negative then -(n : ℤ) else (n : ℤ)))
    | none => (looseDecimal? body).map fun d => float (.ofDecimal negative d)

/-- The number that a text denotes. -/
def ofText? (cs : List Char) : Option Number := ofBody? (splitSign cs).1 (splitSign cs).2

theorem ofBody?_numeral (negative : Bool) (k : Numeral 10) :
    ofBody? negative k.text = some (int (if negative then -(k.value : ℤ) else k.value)) := by
  rw [ofBody?, splitAt_of_forall fun c hc => not_isDivisionMark_of_mem_numeral hc]
  simp only [natural?_text]

theorem ofBody?_quotient (negative : Bool) {a b : Numeral 10} (hb : b.value ≠ 0) :
    ofBody? negative (a.text ++ 'r' :: b.text) =
      some (ratio (if negative then -((a.value : ℚ) / b.value) else (a.value : ℚ) / b.value)) := by
  rw [ofBody?, splitAt_append_cons (fun c hc => not_isDivisionMark_of_mem_numeral hc) rfl]
  simp only [quotient?_eq_some_iff.2 ⟨a, b, rfl, rfl, hb, rfl⟩, Option.map_some]

/-- A decimal literal has a mark that is no digit. -/
theorem natural?_text_decimal (l : DecimalLiteral) : natural? l.text = none := by
  refine Option.eq_none_iff_forall_ne_some.2 fun n hn => ?_
  obtain ⟨k, hk, -⟩ := natural?_eq_some_iff.1 hn
  have hdigits : ∀ c ∈ l.text, isDigit 10 c = true :=
    fun c hc => Numeral.isDigit_of_mem_decimal (hk ▸ hc)
  obtain ⟨⟨whole, fraction⟩, exponent, hmarked⟩ := l
  cases exponent with
  | some e =>
      have he : isDigit 10 e.mark = true := hdigits _ (by simp [DecimalLiteral.text, Exponent.text])
      rw [Exponent.mark] at he
      split at he <;> cases he
  | none =>
      cases fraction with
      | some f =>
          have hpoint : isDigit 10 '.' = true :=
            hdigits _ (by simp [DecimalLiteral.text, Mantissa.text])
          cases hpoint
      | none => simp at hmarked

theorem ofBody?_decimal (negative : Bool) (l : DecimalLiteral) :
    ofBody? negative l.text = some (float (.ofDecimal negative l.decimal)) := by
  rw [ofBody?, splitAt_of_forall fun c hc => not_isDivisionMark_of_mem_text hc]
  simp only [natural?_text_decimal, looseDecimal?_text, Option.map_some]

/-! ### Texts -/

/-- The characters of numbers. -/
def isNumberChar (c : Char) : Bool := isDigit 10 c || ['.', 'e', 'E', '+', '-', 'r'].contains c

theorem isNumberChar_of_mem_numeral {k : Numeral 10} {c : Char} (h : c ∈ k.text) :
    isNumberChar c = true := by
  rw [isNumberChar, Numeral.isDigit_of_mem_decimal h, Bool.true_or]

theorem isNumberChar_of_mem_decimal {l : DecimalLiteral} {c : Char} (h : c ∈ l.text) :
    isNumberChar c = true := by
  have hmarks : ∀ e ∈ ['.', 'e', 'E', '+', '-'], isNumberChar e = true :=
    forall_mem_of_all (by decide)
  rcases mem_text_decimal h with h | h
  · rw [isNumberChar, h, Bool.true_or]
  · exact hmarks c h

/-- A ratio is written as the numerals of its numerator and its denominator. -/
theorem exists_ratioText (q : ℚ) :
    ∃ (s : Sign) (a b : Numeral 10), s.text ++ (a.text ++ 'r' :: b.text) = (ratio q).text ∧
      b.value ≠ 0 ∧ s.apply ((a.value : ℚ) / b.value) = q := by
  obtain ⟨s, a, hatext, ha⟩ := exists_integerText q.num
  obtain ⟨b, hbtext, hb⟩ := Decimal.exists_numeral q.den
  refine ⟨s, a, b, ?_, ?_, ?_⟩
  · rw [text, ← hatext, ← hbtext, List.append_assoc]
  · rw [hb]
    exact q.den_nz
  · rw [Sign.apply_div, ha, hb, Rat.num_div_den]

/-- **The text of a number** is a sign and a text that starts with a digit and denotes the number
behind the sign. -/
theorem exists_body {n : Number} (h : n.IsFinite) :
    ∃ (s : Sign) (body : List Char), n.text = s.text ++ body ∧ StartsWithDigit 10 body ∧
      (∀ c ∈ body, isNumberChar c = true) ∧ ofBody? (decide (s = .minus)) body = some n := by
  cases n with
  | int i =>
      obtain ⟨s, k, htext, hvalue⟩ := exists_integerText i
      refine ⟨s, k.text, htext.symm, startsWithDigit_text k, ?_, ?_⟩
      · exact fun c hc => isNumberChar_of_mem_numeral hc
      · rw [ofBody?_numeral, ← hvalue, Sign.apply_eq_ite]
  | float x =>
      obtain ⟨s, l, htext, hread, -⟩ := Binary64.exists_text h
      refine ⟨s, l.text, htext.symm, startsWithDigit_text_decimal l, ?_, ?_⟩
      · exact fun c hc => isNumberChar_of_mem_decimal hc
      · rw [ofBody?_decimal, hread]
  | ratio q =>
      obtain ⟨s, a, b, htext, hb, hvalue⟩ := exists_ratioText q
      refine ⟨s, a.text ++ 'r' :: b.text, htext.symm, (startsWithDigit_text a).append _, ?_, ?_⟩
      · intro c hc
        rcases List.mem_append.1 hc with hc | hc
        · exact isNumberChar_of_mem_numeral hc
        · rcases List.mem_cons.1 hc with rfl | hc
          · rfl
          · exact isNumberChar_of_mem_numeral hc
      · rw [ofBody?_quotient _ hb, ← Sign.apply_eq_ite, hvalue]

theorem isNumberChar_of_mem_text {n : Number} (h : n.IsFinite) {c : Char} (hc : c ∈ n.text) :
    isNumberChar c = true := by
  obtain ⟨s, body, htext, -, hall, -⟩ := exists_body h
  rw [htext] at hc
  rcases List.mem_append.1 hc with hc | hc
  · cases s <;> simp [Sign.text] at hc <;> exact hc ▸ rfl
  · exact hall c hc

/-- The text of a number starts with a digit or a sign, and has a digit. -/
theorem exists_start {n : Number} (h : n.IsFinite) :
    ∃ c cs, n.text = c :: cs ∧ c.isLower = false ∧ isNumberChar c = true ∧
      ∃ e ∈ n.text, isDigit 10 e = true := by
  have hlower : ∀ d : Digit 10, d.char.isLower = false := by
    rintro ⟨value, capital⟩
    revert value capital
    decide
  obtain ⟨s, body, htext, ⟨d, rest, rfl⟩, hall, -⟩ := exists_body h
  have hdigit : isDigit 10 d.char = true := (isDigit_iff (by decide)).2 ⟨d, rfl⟩
  have hmem : d.char ∈ n.text := htext ▸ List.mem_append_right s.text List.mem_cons_self
  cases s with
  | none => exact ⟨d.char, rest, htext, hlower d, hall _ List.mem_cons_self, d.char, hmem, hdigit⟩
  | plus => exact ⟨'+', d.char :: rest, htext, rfl, rfl, d.char, hmem, hdigit⟩
  | minus => exact ⟨'-', d.char :: rest, htext, rfl, rfl, d.char, hmem, hdigit⟩

/-- **A number is denoted by its text.** -/
theorem ofText?_text {n : Number} (h : n.IsFinite) : ofText? n.text = some n := by
  obtain ⟨s, body, htext, hdigit, -, hread⟩ := exists_body h
  rw [htext, ofText?, splitSign_append hdigit]
  exact hread

/-- Different numbers have different texts. -/
theorem text_inj {m n : Number} (hm : m.IsFinite) (hn : n.IsFinite) (h : m.text = n.text) :
    m = n := by
  have hread := ofText?_text hm
  rw [h, ofText?_text hn] at hread
  exact (Option.some.inj hread).symm

end Number

end LogicTerms
