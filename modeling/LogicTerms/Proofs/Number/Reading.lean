/-
**Numbers read back from their texts.**

The readers of literals and the text of a number know nothing of each other, and still undo each
other.  An integer is written with digits alone, so it is read as an integer and never as a
fraction.  A ratio is written with a division mark, so it is read as a fraction, whole or not, and
is no integer: its numerator may be zero, but the mark behind it opens no other literal.  In a radix
that a mark announces, the digits of a number denote it behind any zeros and in either case.

A finite double is written as a decimal and reads back as the fraction that the decimal denotes.
That is seldom the value of the double, but the double nearest to it is the double again, except for
the sign of a zero.  The texts of the others are the names that the reader of doubles knows.

Main results:

* `Literal.readInteger_text_int`, `Literal.readFraction?_text_int` — integers;
* `Literal.readFraction?_text_ratio`, `Literal.readInteger_text_ratio` — ratios;
* `Literal.readInteger_of_toLower` — the digits of a number behind the mark of a radix;
* `Number.read_exact_text` — **exact numbers read back as themselves**;
* `Number.read_double_text` — **doubles read back as doubles equal to them**.
-/

import LogicTerms.Proofs.Literal.Float
import LogicTerms.Proofs.Literal.Integer
import LogicTerms.Proofs.Number.Text

set_option relaxedAutoImplicit false
set_option autoImplicit false

namespace LogicTerms

namespace Literal

variable {token : String}

/-! ### Integers -/

/-- A literal is read from its text. -/
theorem readInteger_literal (l : IntegerLiteral) :
    readInteger (String.ofList l.text) = .ok (.int l.value) :=
  (IntegerReading.literal l String.toList_ofList.symm).readInteger_eq

/-- **An integer is read from its text.** -/
theorem readInteger_text_int (i : ℤ) :
    readInteger (String.ofList (Number.int i).text) = .ok (.int i) := by
  obtain ⟨s, k, htext, hvalue⟩ := exists_integerText i
  have hread := readInteger_literal (.decimal s k)
  rwa [IntegerLiteral.text, htext, IntegerLiteral.value, hvalue] at hread

/-- A numeral behind a sign is not a fraction: a quotient has a division mark and a decimal a point
or an exponent. -/
theorem readFraction?_numeral {s : Sign} {k : Numeral 10} (h : token.toList = s.text ++ k.text) :
    readFraction? token = none := by
  have hdecimal : decimal? k.text = none := by
    refine Option.eq_none_iff_forall_ne_some.2 fun d hd => ?_
    obtain ⟨l, htext, -⟩ := decimal?_eq_some_iff.1 hd
    have hread := Number.natural?_text_decimal l
    rw [htext, natural?_text] at hread
    exact nomatch hread
  rw [readFraction?_eq, h, splitSign_append (startsWithDigit_text k),
    splitAt_of_forall fun c hc => not_isDivisionMark_of_mem_numeral hc]
  simp only [hdecimal, Option.map_none]

/-- **The text of an integer is not a fraction.** -/
theorem readFraction?_text_int (i : ℤ) :
    readFraction? (String.ofList (Number.int i).text) = none := by
  obtain ⟨s, k, htext, -⟩ := exists_integerText i
  refine readFraction?_numeral (s := s) (k := k) ?_
  rw [String.toList_ofList]
  exact htext.symm

/-! ### Ratios -/

/-- **A ratio is read from its text.** -/
theorem readFraction?_text_ratio (q : ℚ) :
    readFraction? (String.ofList (Number.ratio q).text) = some q := by
  obtain ⟨s, a, b, htext, hb, hvalue⟩ := Number.exists_ratioText q
  refine readFraction?_eq_some_iff.2 ⟨.quotient s a true b hb, ?_, hvalue⟩
  rw [String.toList_ofList, ← htext]
  rfl

/-- What is a fraction is read as one by the reader of fractions and doubles. -/
theorem readFloat_of_readFraction? {q : ℚ} (h : readFraction? token = some q) :
    readFloat token = .ok (.ratio q) := by
  rw [readFloat, h]

/-- **The text of a ratio is not an integer**: it goes on behind the digits of its numerator. -/
theorem readInteger_text_ratio (q : ℚ) :
    readInteger (String.ofList (Number.ratio q).text) =
      .error (.ofLiteral (.invalidInteger (String.ofList (Number.ratio q).text))) := by
  obtain ⟨s, a, b, htext, -, -⟩ := Number.exists_ratioText q
  generalize htoken : String.ofList (Number.ratio q).text = token
  have hlist : token.toList = s.text ++ (a.text ++ 'r' :: b.text) := by
    rw [← htoken, String.toList_ofList, ← htext]
  have hopened : ¬ IsOpened token := by
    refine not_isOpened_of_numeral (fun mark hmark => ?_) hlist
    rw [← Option.some.inj hmark]
    decide
  refine (IntegerReading.invalid s hopened hlist ((startsWithDigit_text a).append _)
    fun n hn => ?_).readInteger_eq
  have hmark : 'r' ∈ n.text := by simp [hn]
  exact absurd (Numeral.isDigit_of_mem_decimal hmark) (by decide)

/-! ### Marked numerals -/

/-- **The digits of a number behind the mark of their radix** are read as the number, with zeros in
front and in either case. -/
theorem readInteger_of_toLower (m : RadixMark) {n zeros : ℕ} {cs : List Char}
    (h : cs.map Char.toLower = List.replicate zeros '0' ++ Nat.toDigits m.radix n) :
    readInteger (String.ofList ('0' :: m.letter :: cs)) = .ok (.int n) := by
  have hradix := m.one_lt_radix
  obtain ⟨plain, hplain, hvalue⟩ := Numeral.exists_toDigits hradix n
  obtain ⟨padded, hpadded, hpaddedValue⟩ := Numeral.exists_zeros_append (by omega) zeros plain
  rw [← hplain, ← hpadded] at h
  obtain ⟨k, rfl, hk⟩ := Numeral.exists_of_toLower m.radix_le h
  have hread := readInteger_literal (.marked m k)
  rwa [IntegerLiteral.text, IntegerLiteral.value, hk, hpaddedValue, hvalue] at hread

end Literal

namespace Number

open Literal

/-! ### Exact numbers -/

/-- **Exact numbers read back as themselves.**  The text of an integer is read as that integer, and
as no fraction; the text of a ratio is read as that ratio, also where it is whole, by both readers
of fractions, and as no integer; and the digits of a number in a radix are read as that integer
behind the mark of the radix, with zeros in front of them and in either case. -/
theorem read_exact_text :
    (∀ i : ℤ, readInteger (String.ofList (int i).text) = .ok (.int i) ∧
      readFraction? (String.ofList (int i).text) = none) ∧
    (∀ q : ℚ, readFraction? (String.ofList (ratio q).text) = some q ∧
      readFloat (String.ofList (ratio q).text) = .ok (.ratio q) ∧
      readInteger (String.ofList (ratio q).text) =
        .error (.ofLiteral (.invalidInteger (String.ofList (ratio q).text)))) ∧
    (∀ (m : RadixMark) (n zeros : ℕ) (cs : List Char),
      cs.map Char.toLower = List.replicate zeros '0' ++ Nat.toDigits m.radix n →
      readInteger (String.ofList ('0' :: m.letter :: cs)) = .ok (.int n)) := by
  refine ⟨fun i => ?_, fun q => ?_, fun m n zeros cs h => ?_⟩
  · exact ⟨readInteger_text_int i, readFraction?_text_int i⟩
  · have hq := readFraction?_text_ratio q
    exact ⟨hq, readFloat_of_readFraction? hq, readInteger_text_ratio q⟩
  · exact readInteger_of_toLower m h

/-- A hexadecimal number behind zeros and in both cases. -/
theorem read_exact_text_hexadecimal :
    ['0', '0', 'f', 'F'].map Char.toLower = List.replicate 2 '0' ++ Nat.toDigits 16 255 ∧
      readInteger "0x00fF" = .ok (.int 255) := by
  have hdigits : ['0', '0', 'f', 'F'].map Char.toLower =
      List.replicate 2 '0' ++ Nat.toDigits 16 255 := by decide
  exact ⟨hdigits, read_exact_text.2.2 .hexadecimal 255 2 ['0', '0', 'f', 'F'] hdigits⟩

/-! ### Doubles -/

/-- **The text of a finite double is read as a fraction** to which the double is nearest. -/
theorem readFloat_text_finite {x : Binary64} (h : x.isFinite = true) :
    ∃ q : ℚ, readFloat (String.ofList (float x).text) = .ok (.ratio q) ∧
      (ratio q).toBinary64.equal x = true := by
  obtain ⟨s, l, htext, hread, hexact⟩ := Binary64.exists_text h
  have hlist : (String.ofList (float x).text).toList = s.text ++ l.text := by
    rw [String.toList_ofList]
    exact htext.symm
  refine ⟨s.apply l.value, readFloat_of_readFraction? ?_, ?_⟩
  · exact readFraction?_eq_some_iff.2 ⟨.decimal s l hexact, hlist.symm, rfl⟩
  · obtain ⟨y, hy, hequal⟩ := equal_toBinary64_of_text hlist
    rw [readBinary64?_text hlist, hread] at hy
    rwa [Option.some.inj hy]

/-- The text of an infinity is its name, which is read as the infinity. -/
theorem readFloat_text_infinite {x : Binary64} (h : x.isInfinite = true) :
    readFloat (String.ofList (float x).text) = .ok (.float x) := by
  have hread : ∀ s : Bool,
      readFloat (String.ofList (float (.infinity s)).text) = .ok (.float (.infinity s)) := by
    decide
  rw [Binary64.eq_infinity_of_isInfinite h]
  exact hread x.negative

/-- The text of a NaN is the name of one. -/
theorem readFloat_text_nan {x : Binary64} (h : x.isNaN = true) :
    readFloat (String.ofList (float x).text) = .ok (.float (.nan false)) := by
  have hread : readFloat (String.ofList ['n', 'a', 'n']) = .ok (.float (.nan false)) := by decide
  rw [text_of_isNaN h, hread]

/-- **Doubles read back as doubles equal to them.**  The text of a finite double, in whichever
notation, is read as a fraction, and the double nearest to that fraction is equal to the one that
was written; the text of an infinity is read as that infinity, and the text of a NaN as a NaN. -/
theorem read_double_text (x : Binary64) :
    (x.isFinite = true → ∃ q : ℚ, readFloat (String.ofList (float x).text) = .ok (.ratio q) ∧
      (ratio q).toBinary64.equal x = true) ∧
    (x.isInfinite = true → readFloat (String.ofList (float x).text) = .ok (.float x)) ∧
    (x.isNaN = true → ∃ y, readFloat (String.ofList (float x).text) = .ok (.float y) ∧
      y.isNaN = true) := by
  refine ⟨readFloat_text_finite, readFloat_text_infinite, fun h => ?_⟩
  exact ⟨.nan false, readFloat_text_nan h, by decide⟩

/-- The least positive double, the negative infinity and a NaN with a payload. -/
theorem read_double_text_extremes :
    (∃ q : ℚ, readFloat (String.ofList (float ⟨false, 1, by decide⟩).text) = .ok (.ratio q) ∧
      (ratio q).toBinary64.equal ⟨false, 1, by decide⟩ = true) ∧
    readFloat (String.ofList (float (.infinity true)).text) = .ok (.float (.infinity true)) ∧
    ∃ y, readFloat (String.ofList (float ⟨true, 2047 * 2 ^ 52 + 1, by decide⟩).text) =
      .ok (.float y) ∧ y.isNaN = true := by
  refine ⟨(read_double_text _).1 (by decide), (read_double_text _).2.1 (by decide), ?_⟩
  exact (read_double_text _).2.2 (by decide)

end Number

end LogicTerms
