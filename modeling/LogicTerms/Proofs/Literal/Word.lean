/-
**Words are wide enough for literals.**

Nothing goes wrong when a fraction is read with words.  An exponent as it is written is never the
least word, so its opposite is a word; absolute values are computed without a sign, where there is
room for that of the least word too; a power of ten is raised only behind a check that it is small,
which is small enough for half a word; and zero denominators are refused.  The two places where a
word may be missing, the exponent as it is written and its difference with the number of places, are
those that say so.

What is read is what the reader without words reads, since a decimal whose scale has no word is not
read exactly anyway.  The one exception is a text with more characters than a word can count, which
no machine has.

Main definitions:

* `Literal.Word.Agrees` — a text is read without fault, and as it should be;
* `Literal.Word.Scaling.IsExact` — the words by which a decimal is scaled are as they should be.

Main results:

* `Literal.Word.neg_eq`, `Literal.Word.abs_eq`, `Literal.Word.narrow_eq` — when the operations that
  do not check go right;
* `Literal.Word.exponent_eq`, `Literal.Word.scaling_eq` — the words of a decimal;
* `Literal.Word.agrees_scaled`, `Literal.Word.agrees_decimal` — the decimals that they scale;
* `Literal.Word.readFraction_no_fault` — **no literal goes wrong**, and what is read is the same.
-/

import LogicTerms.Literal.Word
import LogicTerms.Proofs.Literal.Fraction
import Mathlib.Data.String.Basic

set_option relaxedAutoImplicit false
set_option autoImplicit false

namespace LogicTerms.Literal

/-! ### Readings without faults -/

@[simp] theorem liftM_some {α : Type} (a : α) : (liftM (some a) : Checked α) = pure a := rfl

@[simp] theorem refuse_bind {α β : Type} (f : α → Checked β) :
    (Checked.refuse >>= f) = .refuse := rfl

@[simp] theorem liftM_none {α : Type} : (liftM (none : Option α) : Checked α) = .refuse := rfl

namespace Word

/-- A text of the given length is read without fault: as it should be, or not at all if a word
cannot count its characters. -/
def Agrees (length : ℕ) (x : Checked ℚ) (q? : Option ℚ) : Prop :=
  x = liftM q? ∨ 2 ^ 63 ≤ length ∧ x = .refuse

theorem Agrees.mono {m n : ℕ} {x : Checked ℚ} {q? : Option ℚ} (h : Agrees m x q?) (hmn : m ≤ n) :
    Agrees n x q? :=
  h.imp_right (And.imp_left fun hm => hm.trans hmn)

theorem Agrees.map {n : ℕ} {x : Checked ℚ} {q? : Option ℚ} (h : Agrees n x q?) (f : ℚ → ℚ) :
    Agrees n (f <$> x) (q?.map f) := by
  rcases h with rfl | ⟨hn, rfl⟩
  · left
    cases q? <;> rfl
  · exact .inr ⟨hn, rfl⟩

/-! ### Operations on words -/

section Operations

variable {α β : Type} [DecidableEq β] {number : α → β} {n : β} {computed : α}

theorem exactly?_of_eq (h : number computed = n) : exactly? number n computed = some computed :=
  if_pos h

theorem number_of_exactly? {a : α} (h : exactly? number n computed = some a) : number a = n := by
  rw [exactly?] at h
  split at h
  · exact Option.some.inj h ▸ ‹_›
  · cases h

end Operations

/-- Exactly the whole numbers up to the greatest word are words. -/
theorem ofNat?_eq_none_iff {n : ℕ} : ofNat? n = none ↔ 2 ^ 63 ≤ n := by
  constructor
  · intro h
    by_contra hlt
    rw [ofNat?, exactly?_of_eq (Int64.toInt_ofNat_of_lt (Nat.lt_of_not_le hlt))] at h
    cases h
  · intro hle
    rw [ofNat?, exactly?, if_neg]
    have hlt := (Int64.ofNat n).toInt_lt
    omega

theorem toInt_of_ofNat? {n : ℕ} {x : Int64} (h : ofNat? n = some x) : x.toInt = n :=
  number_of_exactly? h

theorem toInt_of_sub? {x y z : Int64} (h : sub? x y = some z) : z.toInt = x.toInt - y.toInt :=
  number_of_exactly? h

/-- Words have a difference if that is not too large. -/
theorem le_natAbs_of_sub?_eq_none {x y : Int64} (h : sub? x y = none) :
    2 ^ 63 ≤ (x.toInt - y.toInt).natAbs := by
  by_contra hlt
  have hexact : (x - y).toInt = x.toInt - y.toInt := by
    rw [Int64.toInt_sub, Int.bmod_eq_of_le (by omega) (by omega)]
  rw [sub?, exactly?_of_eq hexact] at h
  cases h

/-- Every word but the least has an opposite. -/
theorem neg_eq {x : Int64} (h : -2 ^ 63 < x.toInt) :
    neg x = pure (-x) ∧ (-x).toInt = -x.toInt := by
  have hlt := x.toInt_lt
  have hexact : (-x).toInt = -x.toInt := by
    rw [Int64.toInt_neg, Int.bmod_eq_of_le (by omega) (by omega)]
  refine ⟨?_, hexact⟩
  rw [neg, exactly?_of_eq hexact]
  rfl

/-- Every word has an absolute value. -/
theorem abs_eq (x : Int64) :
    abs x = pure x.abs.toUInt64 ∧ x.abs.toUInt64.toNat = x.toInt.natAbs := by
  have hexact : x.abs.toUInt64.toNat = x.toInt.natAbs := by
    have hbits : x.abs.toUInt64.toNat = x.toBitVec.abs.toNat := rfl
    have hint : x.toInt = x.toBitVec.toInt := rfl
    have hlt := x.toBitVec.isLt
    rw [hbits, hint, BitVec.toNat_abs, BitVec.toInt_eq_msb_cond]
    split <;> omega
  refine ⟨?_, hexact⟩
  rw [abs, exactly?_of_eq hexact]
  rfl

/-- Small words fit into half of their room. -/
theorem narrow_eq {x : UInt64} (h : x.toNat < 2 ^ 32) :
    narrow x = pure x.toUInt32 ∧ x.toUInt32.toNat = x.toNat := by
  have hexact : x.toUInt32.toNat = x.toNat := by
    rw [UInt64.toNat_toUInt32, Nat.mod_eq_of_lt h]
  refine ⟨?_, hexact⟩
  rw [narrow, exactly?_of_eq hexact]
  rfl

/-! ### Exponents -/

/-- An exponent is read as the word that it is, or not at all. -/
theorem exponent_eq (cs : List Char) :
    ∃ x? : Option Int64, exponent cs = liftM x? ∧ x?.map Int64.toInt = exponent? cs := by
  rw [exponent, exponent?]
  obtain ⟨negative, digits⟩ := splitSign cs
  dsimp only
  cases natural? digits with
  | none => exact ⟨none, rfl, rfl⟩
  | some n =>
      simp only [liftM_some, pure_bind]
      cases hx : ofNat? n with
      | none =>
          have hlarge : ¬ n ≤ writtenExponentLimit := by
            have hle := ofNat?_eq_none_iff.1 hx
            rw [writtenExponentLimit]
            omega
          exact ⟨none, rfl, by rw [if_neg hlarge]; rfl⟩
      | some x =>
          have hvalue : x.toInt = n := toInt_of_ofNat? hx
          have hsmall : n ≤ writtenExponentLimit := by
            have hlt := x.toInt_lt
            rw [writtenExponentLimit]
            omega
          -- A word that is written without a sign is not the least one.
          obtain ⟨hneg, hopposite⟩ := neg_eq (x := x) (by omega)
          refine ⟨some (if negative then -x else x), ?_, ?_⟩
          · rw [liftM_some, pure_bind, hneg]
            cases negative <;> rfl
          · rw [if_pos hsmall, Option.map_some]
            cases negative with
            | false => exact congrArg some hvalue
            | true => exact congrArg some (hopposite.trans (congrArg Neg.neg hvalue))

/-! ### Scaling -/

/-- The words are what they should be. -/
structure Scaling.IsExact (s : Scaling) (x : Int64) (fraction : List Char) : Prop where
  /-- The number of bytes behind the point. -/
  places : s.places.toInt = (String.ofList fraction).utf8ByteSize
  /-- The exponent less the places. -/
  scale : s.scale.toInt = x.toInt - s.places.toInt
  /-- Its absolute value. -/
  magnitude : s.magnitude.toNat = s.scale.toInt.natAbs
  /-- The same. -/
  power : s.power.toNat = s.magnitude.toNat
  /-- It is within the limit. -/
  limited : s.power.toNat ≤ 10000

theorem toInt_scaleLimit : scaleLimit.toInt = 10000 := by decide

/-- The words by which a decimal is scaled are right, and they are there unless the scale is beyond
the limit, or the places are more than a word can count. -/
theorem scaling_eq (x : Int64) (fraction : List Char) :
    (∃ s : Scaling, scaling x fraction = pure s ∧ s.IsExact x fraction) ∨
      scaling x fraction = .refuse ∧ (2 ^ 63 ≤ (String.ofList fraction).utf8ByteSize ∨
        10000 < (x.toInt - (String.ofList fraction).utf8ByteSize).natAbs) := by
  rw [scaling]
  cases hplaces : ofNat? (String.ofList fraction).utf8ByteSize with
  | none => exact .inr ⟨rfl, .inl (ofNat?_eq_none_iff.1 hplaces)⟩
  | some places =>
      rw [← toInt_of_ofNat? hplaces]
      cases hscale : sub? x places with
      | none =>
          have hlarge := le_natAbs_of_sub?_eq_none hscale
          refine .inr ⟨?_, .inr (by omega)⟩
          simp only [liftM_some, pure_bind, hscale, liftM_none, refuse_bind]
      | some scale =>
          have hvalue := toInt_of_sub? hscale
          obtain ⟨habs, hmagnitude⟩ := abs_eq scale
          obtain ⟨hlimit, hlimited⟩ := abs_eq scaleLimit
          rw [toInt_scaleLimit] at hlimited
          simp only [liftM_some, pure_bind, hscale, habs, hlimit]
          split
          · rename_i hlt
            rw [UInt64.lt_iff_toNat_lt, hmagnitude, hlimited, hvalue] at hlt
            exact .inr ⟨rfl, .inr hlt⟩
          · rename_i hle
            rw [UInt64.lt_iff_toNat_lt, hlimited] at hle
            obtain ⟨hnarrow, hpower⟩ := narrow_eq (x := scale.abs.toUInt64) (by omega)
            refine .inl ⟨_, by rw [hnarrow, pure_bind], ?_⟩
            have hsmall : scale.abs.toUInt64.toUInt32.toNat ≤ 10000 := by omega
            exact ⟨toInt_of_ofNat? hplaces, hvalue, hmagnitude, hpower, hsmall⟩

/-- The least word is the scale of a decimal.  It has no opposite, but it has an absolute value. -/
example : sub? (-9223372036854775807) 1 = some Int64.minValue ∧
    scaling (-9223372036854775807) ['5'] = .refuse := ⟨by decide, rfl⟩

/-! ### Decimals -/

theorem utf8Size_of_isDigit {radix : ℕ} {c : Char} (h : isDigit radix c = true) :
    c.utf8Size = 1 := by
  rw [Char.utf8Size_eq_one_iff, UInt32.le_iff_toNat_le]
  change c.toNat ≤ 127
  rw [isDigit, digitValue?] at h
  by_contra hlarge
  rw [if_neg (by omega), if_neg (by omega), if_neg (by omega)] at h
  cases h

/-- Digits are one byte each. -/
theorem utf8ByteSize_of_forall_isDigit {radix : ℕ} {cs : List Char}
    (h : ∀ c ∈ cs, isDigit radix c = true) : (String.ofList cs).utf8ByteSize = cs.length := by
  rw [String.utf8ByteSize_ofList]
  induction cs with
  | nil => rfl
  | cons c cs ih =>
      rw [String.utf8Len_cons, utf8Size_of_isDigit (h c List.mem_cons_self), List.length_cons,
        ih fun d hd => h d (List.mem_cons_of_mem c hd)]

theorem ratio_eq (n : ℕ) {d : ℕ} (h : d ≠ 0) : ratio n d = pure (mkRat n d) := if_neg h

theorem powerOfTen_eq {p : UInt32} (h : p.toNat ≤ 10000) :
    powerOfTen p = pure (10 ^ p.toNat) := by
  rw [powerOfTen, toInt_scaleLimit]
  exact if_pos h

/-- A coefficient that is scaled by a word is a decimal. -/
theorem scaled_eq_value (n : ℕ) {scale : Int64} {p : ℕ} (hp : p = scale.toInt.natAbs) :
    (if 0 ≤ scale then pure ((n * 10 ^ p : ℕ) : ℚ) else ratio n (10 ^ p)) =
      pure (Decimal.value ⟨n, scale.toInt⟩) := by
  rw [Decimal.value, hp]
  have hnonneg : 0 ≤ scale ↔ 0 ≤ scale.toInt := by
    rw [Int64.le_iff_toInt_le, Int64.toInt_zero]
  by_cases h : 0 ≤ scale.toInt
  · have hnat : scale.toInt.natAbs = scale.toInt.toNat := by omega
    rw [if_pos h, if_pos (hnonneg.2 h), hnat]
  · have hnat : scale.toInt.natAbs = (-scale.toInt).toNat := by omega
    rw [if_neg h, if_neg (mt hnonneg.1 h), hnat, ratio_eq n (Nat.pow_pos (by decide)).ne']

/-- A decimal is scaled without fault, and to the same number as without words. -/
theorem agrees_scaled (w f : List Char) (x : Int64) :
    Agrees f.length (scaled w f x) ((scaled? w f x.toInt).map Decimal.value) := by
  rw [scaled, scaled?]
  cases w with
  | nil => exact .inl rfl
  | cons c w =>
      simp only [List.isEmpty_cons, Bool.false_eq_true, if_false]
      cases hn : natural? (c :: w ++ f) with
      | none => exact .inl rfl
      | some n =>
          obtain ⟨k, hk, -⟩ := natural?_eq_some_iff.1 hn
          have hsize : (String.ofList f).utf8ByteSize = f.length :=
            utf8ByteSize_of_forall_isDigit fun d hd =>
              Numeral.isDigit_of_mem_decimal (hk ▸ List.mem_append_right (c :: w) hd)
          simp only [liftM_some, pure_bind]
          rcases scaling_eq x f with ⟨s, hs, hexact⟩ | ⟨hrefuse, hlarge | hlarge⟩
          · have hscale : x.toInt - f.length = s.scale.toInt := by
              rw [hexact.scale, hexact.places, hsize]
            have hpower : s.power.toNat = s.scale.toInt.natAbs :=
              hexact.power.trans hexact.magnitude
            have hsmall : s.scale.toInt.natAbs ≤ exponentLimit.natAbs := hpower ▸ hexact.limited
            rw [hs, pure_bind, powerOfTen_eq hexact.limited, pure_bind, scaled_eq_value n hpower,
              hscale, if_pos hsmall]
            exact .inl rfl
          · exact .inr ⟨hsize ▸ hlarge, by rw [hrefuse, refuse_bind]⟩
          · rw [hsize] at hlarge
            have hnot : ¬ (x.toInt - f.length).natAbs ≤ exponentLimit.natAbs :=
              Nat.not_le_of_lt hlarge
            rw [hrefuse, refuse_bind, if_neg hnot]
            exact .inl rfl

/-- The digits behind the point are no more than those of the mantissa. -/
theorem length_le_of_pointParts? {needed : Bool} {cs w f : List Char}
    (h : pointParts? needed cs = some (w, f)) : f.length ≤ cs.length := by
  obtain ⟨-, ⟨rfl, -⟩ | ⟨-, rfl, -⟩⟩ := pointParts?_eq_some_iff.1 h
  · rw [List.length_append, List.length_cons]
    omega
  · exact Nat.zero_le _

theorem agrees_mantissa (needed : Bool) (cs : List Char) (x : Int64) :
    Agrees cs.length (mantissa needed cs x) (((pointParts? needed cs).bind fun parts =>
      scaled? parts.1 parts.2 x.toInt).map Decimal.value) := by
  rw [mantissa]
  cases hparts : pointParts? needed cs with
  | none => exact .inl rfl
  | some parts => exact (agrees_scaled parts.1 parts.2 x).mono (length_le_of_pointParts? hparts)

theorem length_le_of_splitAt {p : Char → Bool} {cs m : List Char} {rest : Option (List Char)}
    (h : splitAt p cs = (m, rest)) : m.length ≤ cs.length := by
  cases h
  exact (List.takeWhile_prefix _).length_le

/-- A decimal is read without fault, and as without words. -/
theorem agrees_decimal (cs : List Char) :
    Agrees cs.length (decimal cs) ((decimal? cs).map Decimal.value) := by
  rw [decimal, show (fun c => c == 'e' || c == 'E') = isExponentMark from rfl]
  rcases hsplit : splitAt isExponentMark cs with ⟨m, _ | rest⟩
  · rw [decimal?_of_none hsplit]
    exact (agrees_mantissa true m 0).mono (length_le_of_splitAt hsplit)
  · rw [decimal?_of_some hsplit]
    obtain ⟨x?, hx, hexponent⟩ := exponent_eq rest
    dsimp only
    rw [hx, ← hexponent]
    cases x? with
    | none => exact .inl rfl
    | some x => exact (agrees_mantissa false m x).mono (length_le_of_splitAt hsplit)

/-! ### Fractions -/

/-- A quotient is read without fault, and as without words. -/
theorem quotient_eq (cs ds : List Char) : quotient cs ds = liftM (quotient? cs ds) := by
  rw [quotient, quotient?]
  cases natural? cs with
  | none => rfl
  | some n =>
      cases natural? ds with
      | none => rfl
      | some d =>
          simp only [liftM_some, pure_bind, Option.bind_eq_bind, Option.bind_some]
          split
          · rfl
          · rename_i hd
            exact ratio_eq n hd

/-- A fraction without a sign is read without fault, and as without words. -/
theorem agrees_unsigned (cs : List Char) :
    Agrees cs.length (unsigned cs) (match splitAt isDivisionMark cs with
      | (numerator, some denominator) => quotient? numerator denominator
      | (_, none) => (decimal? cs).map Decimal.value) := by
  rw [unsigned, show (fun c => c == '/' || c == 'r') = isDivisionMark from rfl]
  rcases splitAt isDivisionMark cs with ⟨n, _ | d⟩
  · exact agrees_decimal cs
  · exact .inl (quotient_eq n d)

theorem length_splitSign_le (cs : List Char) : (splitSign cs).2.length ≤ cs.length := by
  obtain ⟨s, hs, -⟩ := exists_sign cs
  have hlength := congrArg List.length hs
  rw [List.length_append] at hlength
  omega

/-- A fraction is read without fault, and as without words. -/
theorem agrees_readFraction (token : String) :
    Agrees token.length (readFraction token) (readFraction? token) := by
  have hlength := length_splitSign_le token.toList
  rw [String.length_toList] at hlength
  rw [readFraction, readFraction?_eq]
  exact ((agrees_unsigned _).map _).mono hlength

/-- **No literal goes wrong**: a fraction is read with words as it is read without, and never ends
in a fault.  Only a text with more characters than a word can count may be refused instead.  The
words by which a decimal is scaled are as they should be, for every exponent and every text behind
the point: the scale is the exact difference, its absolute value and the power are the same number,
and ten is never raised to more than ten thousand. -/
theorem readFraction_no_fault (token : String) :
    ((readFraction token).run = (readFraction? token).map .ok ∨
      2 ^ 63 ≤ token.length ∧ (readFraction token).run = none) ∧
    ∀ (x : Int64) (fraction : List Char), ∃ s? : Option Scaling,
      (scaling x fraction).run = s?.map .ok ∧ ∀ s ∈ s?, s.IsExact x fraction := by
  constructor
  · exact agrees_readFraction token
  · intro x fraction
    rcases scaling_eq x fraction with ⟨s, hs, hexact⟩ | ⟨hrefuse, -⟩
    · exact ⟨some s, by rw [hs]; rfl, fun t ht => Option.some.inj ht ▸ hexact⟩
    · exact ⟨none, by rw [hrefuse]; rfl, by simp⟩

end Word

end LogicTerms.Literal
