/-
**Names that are written like numbers.**

The written form of a name is a bare name or starts with a quote, and what starts a number literal
behind its sign, a digit or a point with a digit somewhere behind it, neither a quoted name nor a
bare one has.  So names and numbers would be told apart, were it not for the doubles that are
written by words: these words are bare names as well.  The name `inf` is written like the infinity
and the name `nan` like the NaN, and a reader of numbers takes a bare name for a double if it is one
of the words `inf`, `infinity` and `nan`, with capitals anywhere but in the first place.  There is
no other confusion; `-inf` is no bare name.

Main definitions:

* `Literal.StartsNumerically` — a text that starts as number literals do, words apart.

Main results:

* `Literal.startsNumerically_of_readInteger`, `Literal.startsNumerically_of_readFraction?`,
  `Literal.startsNumerically_of_readBinary64?` — literals start numerically;
* `Term.not_startsNumerically_quoteName` — **written names do not start numerically**;
* `Term.name_as_number_iff` — which names can be taken for numbers.
-/

import LogicTerms.Proofs.Literal.Float
import LogicTerms.Proofs.Literal.Integer
import LogicTerms.Proofs.Term.Token

set_option relaxedAutoImplicit false
set_option autoImplicit false

namespace LogicTerms

namespace Literal

variable {cs : List Char} {token : String}

/-! ### How numbers start -/

/-- Behind an optional sign the text starts with a digit or a point, and it has a digit. -/
def StartsNumerically (cs : List Char) : Prop :=
  (∃ c rest, (splitSign cs).2 = c :: rest ∧ (isDigit 10 c = true ∨ c = '.')) ∧
    ∃ c ∈ cs, isDigit 10 c = true

theorem startsNumerically_of_startsWithDigit (s : Sign) (h : StartsWithDigit 10 cs) :
    StartsNumerically (s.text ++ cs) := by
  have hsplit := splitSign_append (s := s) h
  obtain ⟨d, rest, rfl⟩ := h
  have hd : isDigit 10 d.char = true := (isDigit_iff (by decide)).2 ⟨d, rfl⟩
  refine ⟨⟨d.char, rest, by rw [hsplit], .inl hd⟩, d.char, ?_, hd⟩
  exact List.mem_append_right _ List.mem_cons_self

/-- Integer literals start numerically. -/
theorem startsNumerically_of_readInteger {n : Number} (h : readInteger token = .ok n) :
    StartsNumerically token.toList := by
  have hzero : ∀ cs, StartsNumerically ('0' :: cs) := fun cs =>
    startsNumerically_of_startsWithDigit .none ⟨⟨0, false⟩, cs, rfl⟩
  obtain ⟨o, ho⟩ := exists_integerReading token
  obtain rfl : o = .ok n := ho.readInteger_eq.symm.trans h
  cases ho with
  | literal l hl =>
      rw [← hl]
      cases l with
      | character k => exact hzero _
      | marked m k => exact hzero _
      | decimal s k => exact startsNumerically_of_startsWithDigit s (startsWithDigit_text k)

/-- Fraction literals start numerically. -/
theorem startsNumerically_of_readFraction? {q : ℚ} (h : readFraction? token = some q) :
    StartsNumerically token.toList := by
  obtain ⟨l, hl, -⟩ := readFraction?_eq_some_iff.1 h
  rw [← hl]
  cases l with
  | quotient s n letter d hd =>
      exact startsNumerically_of_startsWithDigit s ((startsWithDigit_text n).append _)
  | decimal s l hexact =>
      exact startsNumerically_of_startsWithDigit s (startsWithDigit_text_decimal l)

/-- The digits of a decimal are around its point. -/
theorem exists_start_of_natural? {n : ℕ}
    (h : natural? ((splitAt (· == '.') cs).1 ++ (splitAt (· == '.') cs).2.getD []) = some n) :
    ∃ c rest, cs = c :: rest ∧ (isDigit 10 c = true ∨ c = '.') ∧ ∃ e ∈ cs, isDigit 10 e = true := by
  obtain ⟨k, hk, -⟩ := natural?_eq_some_iff.1 h
  obtain ⟨d, ds, hd⟩ := startsWithDigit_text k
  have hdigit : isDigit 10 d.char = true := (isDigit_iff (by decide)).2 ⟨d, rfl⟩
  rw [hk] at hd
  rcases splitAt_cases (· == '.') cs with ⟨-, hsplit⟩ | ⟨before, c, rest, rfl, -, hc, hsplit⟩
  · simp only [hsplit, Option.getD_none, List.append_nil] at hd
    exact ⟨d.char, ds, hd, .inl hdigit, d.char, hd ▸ List.mem_cons_self, hdigit⟩
  · simp only [hsplit, Option.getD_some] at hd
    cases before with
    | nil =>
        -- the point is in front of all digits
        rw [List.nil_append] at hd
        refine ⟨c, rest, rfl, .inr (beq_iff_eq.1 hc), d.char, ?_, hdigit⟩
        exact List.mem_cons_of_mem _ (hd ▸ List.mem_cons_self)
    | cons b before =>
        obtain ⟨rfl, -⟩ := List.cons.inj hd
        exact ⟨d.char, before ++ c :: rest, rfl, .inl hdigit, d.char, List.mem_cons_self, hdigit⟩

/-- A decimal has digits around the point of what is in front of its exponent mark. -/
theorem exists_natural?_of_looseDecimal? {d : Decimal} (h : looseDecimal? cs = some d) :
    ∃ n mantissa, (splitAt isExponentMark cs).1 = mantissa ∧
      natural? ((splitAt (· == '.') mantissa).1 ++ (splitAt (· == '.') mantissa).2.getD []) =
        some n := by
  obtain ⟨e, -, h⟩ := Option.bind_eq_some_iff.1 h
  obtain ⟨n, hn, -⟩ := Option.bind_eq_some_iff.1 h
  exact ⟨n, _, rfl, hn⟩

theorem exists_start_of_looseDecimal? {d : Decimal} (h : looseDecimal? cs = some d) :
    ∃ c rest, cs = c :: rest ∧ (isDigit 10 c = true ∨ c = '.') ∧ ∃ e ∈ cs, isDigit 10 e = true := by
  obtain ⟨n, mantissa, hmantissa, hn⟩ := exists_natural?_of_looseDecimal? h
  obtain ⟨c, rest, rfl, hc, e, he, hdigit⟩ := exists_start_of_natural? hn
  rcases splitAt_cases isExponentMark cs with ⟨-, hsplit⟩ | ⟨before, b, behind, rfl, -, -, hsplit⟩
  · rw [hsplit] at hmantissa
    obtain rfl : cs = c :: rest := hmantissa
    exact ⟨c, rest, rfl, hc, e, he, hdigit⟩
  · rw [hsplit] at hmantissa
    obtain rfl : before = c :: rest := hmantissa
    exact ⟨c, rest ++ b :: behind, rfl, hc, e, List.mem_append_left _ he, hdigit⟩

/-- Literals of doubles start numerically, except the words. -/
theorem startsNumerically_of_readBinary64? {x : Binary64} (h : readBinary64? token = some x)
    (hword : special? (splitSign token.toList).1 (splitSign token.toList).2 = none) :
    StartsNumerically token.toList := by
  obtain ⟨s, htext, -⟩ := exists_sign token.toList
  rw [readBinary64?] at h
  simp only [hword] at h
  obtain ⟨d, hd, -⟩ := Option.map_eq_some_iff.1 h
  obtain ⟨c, rest, hbody, hc, e, he, hdigit⟩ := exists_start_of_looseDecimal? hd
  refine ⟨⟨c, rest, hbody, hc⟩, e, ?_, hdigit⟩
  rw [htext]
  exact List.mem_append_right _ he

/-! ### Words -/

/-- The words start with a letter. -/
theorem exists_cons_of_special? {negative : Bool} {x : Binary64}
    (h : special? negative cs = some x) :
    ∃ c rest, cs = c :: rest ∧ (lower c = 'i' ∨ lower c = 'n') := by
  cases cs with
  | nil => exact nomatch h
  | cons c rest =>
      refine ⟨c, rest, rfl, ?_⟩
      by_contra hc
      obtain ⟨hi, hn⟩ := not_or.1 hc
      simp [special?, hi, hn] at h

end Literal

namespace Term

open Literal

variable {name : List Char} {n : Number}

/-! ### How names start -/

/-- A name is written bare or starts with a quote. -/
theorem quoteName_cases (name : List Char) :
    (isBare name = true ∧ quoteName name = name) ∨
      isBare name = false ∧ ∃ cs, quoteName name = '\'' :: cs := by
  by_cases h : isBare name = true
  · exact .inl ⟨h, quoteName_of_isBare h⟩
  · exact .inr ⟨Bool.eq_false_iff.2 h, _, if_neg h⟩

/-- Without letters there is no word, with or without a sign. -/
theorem special?_of_symbols (h : ∀ c ∈ name, c ∈ specialNames.flatten ++ symbolCharacters)
    (negative : Bool) : special? negative name = none := by
  have hletters : ∀ c ∈ specialNames.flatten ++ symbolCharacters, lower c ≠ 'i' ∧ lower c ≠ 'n' :=
    forall_mem_of_all (by decide)
  refine Option.eq_none_iff_forall_ne_some.2 fun x hx => ?_
  obtain ⟨c, rest, rfl, hc⟩ := exists_cons_of_special? hx
  have hne := hletters c (h c List.mem_cons_self)
  exact hc.elim hne.1 hne.2

/-- A bare name starts with a letter, or has neither letters nor digits. -/
theorem isBare_start (h : isBare name = true) :
    (∃ c cs, name = c :: cs ∧ c.isLower = true) ∨
      ∀ c ∈ name, c ∈ specialNames.flatten ++ symbolCharacters := by
  rcases isBare_cases h with h | ⟨c, cs, rfl, hc, -⟩ | ⟨-, h⟩
  · exact .inr fun c hc => List.mem_append_left _ (List.mem_flatten_of_mem h hc)
  · exact .inl ⟨c, cs, rfl, hc⟩
  · exact .inr fun c hc => List.mem_append_right _ (h c hc)

/-- A text that starts with a letter or a quote has no sign. -/
theorem splitSign_of_ne {c : Char} {cs : List Char} (hminus : c ≠ '-') (hplus : c ≠ '+') :
    splitSign (c :: cs) = (false, c :: cs) := by
  simp [splitSign, hminus, hplus]

theorem ne_of_isLower {c d : Char} (hc : c.isLower = true) (hd : d.isLower = false) : c ≠ d := by
  rintro rfl
  rw [hc] at hd
  exact nomatch hd

/-- **Written names do not start numerically.** -/
theorem not_startsNumerically_quoteName (name : List Char) :
    ¬ StartsNumerically (quoteName name) := by
  rintro ⟨⟨c, rest, hbody, hc⟩, e, he, hdigit⟩
  rcases quoteName_cases name with ⟨hbare, hname⟩ | ⟨-, cs, hname⟩
  · rw [hname] at hbody he
    rcases isBare_start hbare with ⟨b, bs, rfl, hb⟩ | hsymbols
    · rw [splitSign_of_ne (ne_of_isLower hb rfl) (ne_of_isLower hb rfl)] at hbody
      obtain ⟨rfl, -⟩ := List.cons.inj hbody
      rcases hc with hc | rfl
      · obtain ⟨d, rfl⟩ := (isDigit_iff (by decide)).1 hc
        have hlower : ∀ d : Digit 10, d.char.isLower = false := by
          rintro ⟨value, capital⟩
          revert value capital
          decide
        exact ne_of_isLower hb (hlower d) rfl
      · exact nomatch hb
    · have hall : ∀ c ∈ specialNames.flatten ++ symbolCharacters, isDigit 10 c = false :=
        forall_mem_of_all (by decide)
      rw [hall e (hsymbols e he)] at hdigit
      exact nomatch hdigit
  · rw [hname, splitSign_of_ne (by decide) (by decide)] at hbody
    obtain ⟨rfl, -⟩ := List.cons.inj hbody
    rcases hc with hc | hc <;> exact nomatch hc

/-! ### Words as names -/

/-- The words are read for doubles where they are written bare. -/
theorem special?_quoteName (name : List Char) :
    special? (splitSign (quoteName name)).1 (splitSign (quoteName name)).2 =
      if isBare name = true then special? false name else none := by
  rcases quoteName_cases name with ⟨hbare, hname⟩ | ⟨hbare, cs, hname⟩
  · rw [hname, if_pos hbare]
    rcases isBare_start hbare with ⟨b, bs, rfl, hb⟩ | hsymbols
    · rw [splitSign_of_ne (ne_of_isLower hb rfl) (ne_of_isLower hb rfl)]
    · rw [special?_of_symbols hsymbols, special?_of_symbols fun c hc => hsymbols c ?_]
      obtain ⟨s, htext, -⟩ := exists_sign name
      rw [htext]
      exact List.mem_append_right _ hc
  · rw [hname, if_neg (by simp [hbare]), splitSign_of_ne (by decide) (by decide)]
    refine Option.eq_none_iff_forall_ne_some.2 fun x hx => ?_
    obtain ⟨c, rest, hcons, hc⟩ := exists_cons_of_special? hx
    obtain ⟨rfl, -⟩ := List.cons.inj hcons
    exact absurd hc (by decide)

/-- **A written name is read for a double exactly if it is a bare word.** -/
theorem readFloat_quoteName_iff :
    readFloat (String.ofList (quoteName name)) = .ok n ↔
      isBare name = true ∧ ∃ x, special? false name = some x ∧ n = .float x := by
  have hfraction : readFraction? (String.ofList (quoteName name)) = none := by
    refine Option.eq_none_iff_forall_ne_some.2 fun q hq => ?_
    refine not_startsNumerically_quoteName name ?_
    rw [← String.toList_ofList (l := quoteName name)]
    exact startsNumerically_of_readFraction? hq
  have hdouble : readBinary64? (String.ofList (quoteName name)) =
      if isBare name = true then special? false name else none := by
    rw [← special?_quoteName]
    cases hword : special? (splitSign (quoteName name)).1 (splitSign (quoteName name)).2 with
    | some x => simp only [readBinary64?, String.toList_ofList, hword]
    | none =>
        refine Option.eq_none_iff_forall_ne_some.2 fun x hx => ?_
        refine not_startsNumerically_quoteName name ?_
        rw [← String.toList_ofList (l := quoteName name)] at hword ⊢
        exact startsNumerically_of_readBinary64? hx hword
  simp only [readFloat, hfraction, hdouble]
  by_cases hbare : isBare name = true
  · rw [if_pos hbare]
    cases special? false name with
    | some x => simp [hbare, eq_comm]
    | none => simp
  · rw [if_neg hbare]
    simp [hbare]

/-- A bare name is the written form of no other name. -/
theorem quoteName_eq_iff {word : List Char} (h : isBare word = true) :
    quoteName name = word ↔ name = word := by
  constructor
  · intro hname
    exact quoteName_inj (hname.trans (quoteName_of_isBare h).symm)
  · rintro rfl
    exact quoteName_of_isBare h

/-- The written form of a name is bare or starts with a quote. -/
theorem quoteName_ne {word : List Char} (h : isBare word = false)
    (hquote : word.head? ≠ some '\'') :
    quoteName name ≠ word := by
  rintro rfl
  rcases quoteName_cases name with ⟨hbare, hname⟩ | ⟨-, cs, hname⟩
  · rw [hname, hbare] at h
    exact nomatch h
  · exact hquote (by rw [hname, List.head?_cons])

/-- The names that are written like a number. -/
theorem quoteName_eq_text_iff :
    quoteName name = n.text ↔ name = "inf".toList ∧ n = .float (.infinity false) ∨
      name = "nan".toList ∧ ∃ x : Binary64, n = .float x ∧ x.isNaN = true := by
  rcases n.isFinite_or_word with hn | rfl | rfl | ⟨x, rfl, hx⟩
  · refine iff_of_false (quoteName_ne_number hn) ?_
    rintro (⟨-, rfl⟩ | ⟨-, x, rfl, hx⟩)
    · exact Number.not_isFinite_infinity hn
    · exact Number.not_isFinite_of_isNaN hx hn
  · have hbare : isBare "inf".toList = true := by decide
    have htext : (Number.float (.infinity false)).text = "inf".toList := by decide
    have hnan : (Binary64.infinity false).isNaN = false := by decide
    rw [htext, quoteName_eq_iff hbare]
    simp [hnan]
  · have hne : quoteName name ≠ "-inf".toList := quoteName_ne (by decide) (by decide)
    have htext : (Number.float (.infinity true)).text = "-inf".toList := by decide
    have hnan : (Binary64.infinity true).isNaN = false := by decide
    have hinf : Binary64.infinity true ≠ Binary64.infinity false := by decide
    rw [htext]
    refine iff_of_false hne ?_
    simp [hnan, hinf]
  · have hbare : isBare "nan".toList = true := by decide
    have hinf : x ≠ .infinity false := by
      rintro rfl
      exact absurd hx (by decide)
    have htext : (Number.float x).text = "nan".toList := Number.text_of_isNaN hx
    rw [htext, quoteName_eq_iff hbare]
    simp [hx, hinf]

/-- **Which names can be taken for numbers.**  An atom is written like a number exactly if it is
`inf` and the number the infinity, or if it is `nan` and the number a NaN.  What is written for an
atom is never read as an integer, and it is read as a double exactly if its name is a bare word for
one. -/
theorem name_as_number_iff (a : String) (n : Number) :
    ((atom a).text = (num n).text ↔ a = "inf" ∧ n = .float (.infinity false) ∨
      a = "nan" ∧ ∃ x : Binary64, n = .float x ∧ x.isNaN = true) ∧
    readInteger (String.ofList (atom a).text) ≠ .ok n ∧
    (readFloat (String.ofList (atom a).text) = .ok n ↔
      isBare a.toList = true ∧ ∃ x, special? false a.toList = some x ∧ n = .float x) := by
  refine ⟨?_, fun h => ?_, readFloat_quoteName_iff⟩
  · rw [← @String.toList_inj a "inf", ← @String.toList_inj a "nan"]
    exact quoteName_eq_text_iff
  · refine not_startsNumerically_quoteName a.toList ?_
    have hnumber := startsNumerically_of_readInteger h
    rwa [String.toList_ofList] at hnumber

/-- The atom `inf` and the infinity are different terms of one text, and so are `nan` and a NaN. -/
theorem name_like_infinity :
    (atom "inf").text = (num (.float (.infinity false))).text ∧
      (atom "nan").text = (num (.float (.nan false))).text ∧
      readFloat (String.ofList (atom "inf").text) = .ok (.float (.infinity false)) := by
  decide

end Term

end LogicTerms
