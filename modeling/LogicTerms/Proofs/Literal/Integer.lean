/-
**The notations of integers.**

An integer literal is a character code, a numeral behind the mark of its radix, or a decimal numeral
behind an optional sign.  Every other text is refused in one of four ways, which the texts determine
as well: there is nothing, or no digit where digits start, which the caller is to blame for; or
there is more behind the digits, or no character behind the opening of a character code, which are
errors of the literal.  All of this is said here of texts, without the reader, and then proved of
the reader.

Main definitions:

* `IntegerLiteral` — an integer literal;
* `IntegerLiteral.text`, `IntegerLiteral.value` — how it is written, and what it denotes;
* `Literal.Opens` — a text that opens with a mark;
* `Literal.IntegerReading` — **what becomes of a text**.

Main results:

* `Literal.readMagnitude_text`, `Literal.readMagnitude_of_forall_ne` — the runs of digits;
* `Literal.IntegerReading.readInteger_eq` — the reader does what becomes of a text;
* `Literal.exists_integerReading` — something becomes of every text;
* `Literal.readInteger_eq_iff` — **the reader is determined by the notations**.
-/

import LogicTerms.Literal.Integer
import LogicTerms.Proofs.Literal.CharacterCode
import Mathlib.Data.String.Basic

set_option relaxedAutoImplicit false
set_option autoImplicit false

namespace LogicTerms

/-! ### Notations -/

/-- A mark of a radix. -/
inductive RadixMark where
  | binary
  | octal
  | hexadecimal

/-- The letter of the mark. -/
def RadixMark.letter : RadixMark → Char
  | binary => 'b'
  | octal => 'o'
  | hexadecimal => 'x'

/-- The radix that it marks. -/
def RadixMark.radix : RadixMark → ℕ
  | binary => 2
  | octal => 8
  | hexadecimal => 16

theorem RadixMark.radix_le (m : RadixMark) : m.radix ≤ 16 := by
  cases m <;> decide

theorem RadixMark.one_lt_radix (m : RadixMark) : 1 < m.radix := by
  cases m <;> decide

/-- An integer literal. -/
inductive IntegerLiteral where
  /-- A character code. -/
  | character (k : CharacterCode)
  /-- A numeral of a radix other than ten. -/
  | marked (m : RadixMark) (n : Numeral m.radix)
  /-- A decimal numeral behind an optional sign. -/
  | decimal (s : Sign) (n : Numeral 10)

namespace IntegerLiteral

/-- How the literal is written. -/
def text : IntegerLiteral → List Char
  | character k => '0' :: '\'' :: k.text
  | marked m n => '0' :: m.letter :: n.text
  | decimal s n => s.text ++ n.text

/-- The integer that it denotes. -/
def value : IntegerLiteral → ℤ
  | character k => k.code
  | marked _ n => n.value
  | decimal s n => s.apply (n.value : ℤ)

end IntegerLiteral

namespace Literal

/-- The text has at least three bytes, of which the first two are a zero and the mark. -/
def Opens (token : String) (mark : Char) (rest : List Char) : Prop :=
  token.toList = '0' :: mark :: rest ∧ 3 ≤ token.utf8ByteSize

/-- The characters that open a literal behind a zero. -/
def openingMarks : List Char := ['\'', 'b', 'o', 'x']

/-- The text opens with one of the marks. -/
def IsOpened (token : String) : Prop := ∃ mark ∈ openingMarks, ∃ rest, Opens token mark rest

/-- **What becomes of a text** that is read as an integer literal. -/
inductive IntegerReading (token : String) : Except Failure Number → Prop
  /-- A literal denotes its value. -/
  | literal (l : IntegerLiteral) : l.text = token.toList →
      IntegerReading token (.ok (.int l.value))
  /-- There is nothing. -/
  | empty : token.toList = [] → IntegerReading token (.error (.violation .emptyInteger))
  /-- A character code has a lone backslash, or something that starts with none and is no
  notation. -/
  | invalidCharacter {cs : List Char} : Opens token '\'' cs → (∀ k : CharacterCode, k.text ≠ cs) →
      (cs = ['\\'] ∨ cs.head? ≠ some '\\') →
      IntegerReading token (.error (.ofLiteral (.invalidCharacter token)))
  /-- A character code starts with a backslash and goes on to something that is no notation. -/
  | invalidEscape {cs : List Char} : Opens token '\'' cs → (∀ k : CharacterCode, k.text ≠ cs) →
      cs ≠ ['\\'] → cs.head? = some '\\' →
      IntegerReading token (.error (.ofLiteral (.invalidEscape token)))
  /-- No digit of the radix is behind its mark. -/
  | markedNoDigits (m : RadixMark) {cs : List Char} : Opens token m.letter cs →
      ¬ StartsWithDigit m.radix cs →
      IntegerReading token (.error (.violation (.noDigits token m.radix)))
  /-- More than digits of the radix is behind its mark. -/
  | markedInvalid (m : RadixMark) {cs : List Char} : Opens token m.letter cs →
      StartsWithDigit m.radix cs → (∀ n : Numeral m.radix, n.text ≠ cs) →
      IntegerReading token (.error (.ofLiteral (.invalidInteger token)))
  /-- No decimal digit is behind the optional sign. -/
  | noDigits : token.toList ≠ [] → ¬ IsOpened token →
      (∀ (s : Sign) (cs : List Char), token.toList = s.text ++ cs → ¬ StartsWithDigit 10 cs) →
      IntegerReading token (.error (.violation (.noDigits token 10)))
  /-- More than decimal digits is behind the optional sign. -/
  | invalid (s : Sign) {cs : List Char} : ¬ IsOpened token → token.toList = s.text ++ cs →
      StartsWithDigit 10 cs → (∀ n : Numeral 10, n.text ≠ cs) →
      IntegerReading token (.error (.ofLiteral (.invalidInteger token)))

variable {radix : ℕ} {token : String} {cs : List Char}

/-! ### Openings -/

/-- The text opens with a mark if there is something behind it. -/
theorem opens_iff {mark : Char} (hmark : mark ∈ openingMarks) :
    Opens token mark cs ↔ token.toList = '0' :: mark :: cs ∧ cs ≠ [] := by
  have hsize : mark.utf8Size = 1 := by
    have hall : ∀ m ∈ openingMarks, m.utf8Size = 1 := forall_mem_of_all (by decide)
    exact hall mark hmark
  refine and_congr_right fun h => ?_
  have htoken : token = String.ofList ('0' :: mark :: cs) := by rw [← h, String.ofList_toList]
  have hzero : Char.utf8Size '0' = 1 := by decide
  rw [htoken, String.utf8ByteSize_ofList, String.utf8Len_cons, String.utf8Len_cons, hsize, hzero]
  cases cs with
  | nil => simp
  | cons c cs =>
      have hpos := Char.utf8Size_pos c
      simp only [String.utf8Len_cons, ne_eq, reduceCtorEq, not_false_eq_true, iff_true]
      omega

theorem letter_mem_openingMarks (m : RadixMark) : m.letter ∈ openingMarks := by
  cases m <;> decide

/-! ### Runs of digits -/

/-- A numeral is read as what it denotes. -/
theorem readMagnitude_text (hradix : radix ≤ 16) (n : Numeral radix) :
    readMagnitude token radix n.text = .ok n.value := by
  have hhead := (startsWithDigit_iff hradix).1 (startsWithDigit_text n)
  have hall : n.text.all (isDigit radix) = true :=
    List.all_eq_true.2 fun c hc => Numeral.isDigit_of_mem_text hradix hc
  rw [readMagnitude, hhead, hall, n.ofDigits_text hradix]
  rfl

theorem readMagnitude_of_not_startsWithDigit (hradix : radix ≤ 16)
    (h : ¬ StartsWithDigit radix cs) :
    readMagnitude token radix cs = .error (.violation (.noDigits token radix)) := by
  rw [startsWithDigit_iff hradix, Bool.not_eq_true] at h
  rw [readMagnitude, h]
  rfl

/-- A text that starts with a digit and is no numeral is an error. -/
theorem readMagnitude_of_forall_ne (hradix : radix ≤ 16) (h : StartsWithDigit radix cs)
    (hne : ∀ n : Numeral radix, n.text ≠ cs) :
    readMagnitude token radix cs = .error (.ofLiteral (.invalidInteger token)) := by
  have hcs : cs ≠ [] := by
    obtain ⟨d, rest, rfl⟩ := h
    exact List.cons_ne_nil _ _
  have hall : cs.all (isDigit radix) = false := by
    rw [Bool.eq_false_iff]
    intro hall
    obtain ⟨n, hn⟩ := (Numeral.exists_text_eq_iff hradix).2 ⟨hcs, List.all_eq_true.1 hall⟩
    exact hne n hn
  rw [readMagnitude, (startsWithDigit_iff hradix).1 h, hall]
  rfl

/-! ### Texts by their openings -/

theorem readInteger_of_code (h : token.toList = '0' :: '\'' :: cs) (hcs : cs ≠ []) :
    readInteger token =
      ((readCharacter token cs).map Number.ofChar).mapError Failure.ofLiteral := by
  obtain ⟨c, cs, rfl⟩ := List.exists_cons_of_ne_nil hcs
  simp only [readInteger, h]

theorem readInteger_of_mark (m : RadixMark) (h : token.toList = '0' :: m.letter :: cs)
    (hcs : cs ≠ []) :
    readInteger token = (readMagnitude token m.radix cs).map fun n => .int n := by
  obtain ⟨c, cs, rfl⟩ := List.exists_cons_of_ne_nil hcs
  have hmap : ∀ o : Except Failure ℕ, (do let n ← o; pure (n : ℤ)).map Number.int =
      o.map fun n => .int n := by
    intro o
    cases o <;> rfl
  simp only [readInteger, h]
  cases m <;> exact hmap _

theorem readInteger_of_not_isOpened (hne : token.toList ≠ []) (h : ¬ IsOpened token) :
    readInteger token = (readMagnitude token 10 (splitSign token.toList).2).map fun n =>
      .int (if (splitSign token.toList).1 then -(n : ℤ) else n) := by
  have hplain : ∀ mark ∈ openingMarks, ∀ cs, token.toList = '0' :: mark :: cs → cs = [] := by
    intro mark hmark cs hcs
    by_contra hnil
    exact h ⟨mark, hmark, cs, (opens_iff hmark).2 ⟨hcs, hnil⟩⟩
  have hdecimal : readInteger token = (readDecimalInteger token token.toList).map .int := by
    rw [readInteger]
    split
    · rename_i hcs
      exact absurd hcs hne
    · rename_i hcs
      exact absurd (hplain '\'' (by decide) _ hcs) (List.cons_ne_nil _ _)
    · rename_i hcs
      exact absurd (hplain 'b' (by decide) _ hcs) (List.cons_ne_nil _ _)
    · rename_i hcs
      exact absurd (hplain 'o' (by decide) _ hcs) (List.cons_ne_nil _ _)
    · rename_i hcs
      exact absurd (hplain 'x' (by decide) _ hcs) (List.cons_ne_nil _ _)
    · rfl
  rw [hdecimal, readDecimalInteger]
  obtain ⟨negative, digits⟩ := splitSign token.toList
  dsimp only
  cases readMagnitude token 10 digits <;> rfl

/-- A text that starts with a decimal numeral does not open with a mark, which is no digit, unless
the mark is right behind the numeral. -/
theorem not_isOpened_of_numeral {s : Sign} {n : Numeral 10} {rest : List Char}
    (hrest : ∀ mark ∈ rest.head?, mark ∉ openingMarks)
    (h : token.toList = s.text ++ (n.text ++ rest)) : ¬ IsOpened token := by
  rintro ⟨mark, hmark, cs, hcs, -⟩
  rw [h] at hcs
  cases s with
  | none =>
      obtain ⟨c, ds, hn⟩ := List.exists_cons_of_ne_nil n.text_ne_nil
      rw [Sign.text, List.nil_append, hn] at hcs
      have hbehind : ds ++ rest = mark :: cs := (List.cons.inj hcs).2
      cases ds with
      | nil =>
          rw [List.nil_append] at hbehind
          exact hrest mark (by simp [hbehind]) hmark
      | cons d ds =>
          have hdigit : isDigit 10 mark = true := by
            rw [← (List.cons.inj hbehind).1]
            exact Numeral.isDigit_of_mem_decimal (n := n) (by simp [hn])
          have hall : ∀ m ∈ openingMarks, isDigit 10 m = false := forall_mem_of_all (by decide)
          exact absurd (hall mark hmark) (by simp [hdigit])
  | plus => exact absurd (List.cons.inj hcs).1 (by decide)
  | minus => exact absurd (List.cons.inj hcs).1 (by decide)

/-! ### The reader -/

/-- The reader does what becomes of a text. -/
theorem IntegerReading.readInteger_eq {o : Except Failure Number} (h : IntegerReading token o) :
    readInteger token = o := by
  cases h with
  | literal l hl =>
      cases l with
      | character k =>
          obtain ⟨c, hc, hcode⟩ := readCharacter_text token k
          rw [readInteger_of_code hl.symm k.text_ne_nil, hc, IntegerLiteral.value, ← hcode]
          rfl
      | marked m n =>
          rw [readInteger_of_mark m hl.symm n.text_ne_nil, readMagnitude_text m.radix_le]
          rfl
      | decimal s n =>
          have hne : token.toList ≠ [] := by
            rw [← hl]
            simp [IntegerLiteral.text, n.text_ne_nil]
          have htext : token.toList = s.text ++ (n.text ++ []) := by
            rw [List.append_nil, ← hl]
            rfl
          have hopened : ¬ IsOpened token := not_isOpened_of_numeral (by simp) htext
          rw [readInteger_of_not_isOpened hne hopened, ← hl, IntegerLiteral.text,
            splitSign_append (startsWithDigit_text n),
            readMagnitude_text (by decide), IntegerLiteral.value, s.apply_eq_ite]
          rfl
  | empty h => rw [readInteger, h]
  | invalidCharacter hopens hne h =>
      obtain ⟨hcs, hnil⟩ := (opens_iff (by decide)).1 hopens
      rw [readInteger_of_code hcs hnil, readCharacter_of_forall_ne token hne, if_pos h]
      rfl
  | invalidEscape hopens hne hlone hhead =>
      obtain ⟨hcs, hnil⟩ := (opens_iff (by decide)).1 hopens
      have hnot : ¬ (_ = ['\\'] ∨ _) := not_or.2 ⟨hlone, not_not.2 hhead⟩
      rw [readInteger_of_code hcs hnil, readCharacter_of_forall_ne token hne, if_neg hnot]
      rfl
  | markedNoDigits m hopens h =>
      obtain ⟨hcs, hnil⟩ := (opens_iff (letter_mem_openingMarks m)).1 hopens
      rw [readInteger_of_mark m hcs hnil, readMagnitude_of_not_startsWithDigit m.radix_le h]
      rfl
  | markedInvalid m hopens h hne =>
      obtain ⟨hcs, hnil⟩ := (opens_iff (letter_mem_openingMarks m)).1 hopens
      rw [readInteger_of_mark m hcs hnil, readMagnitude_of_forall_ne m.radix_le h hne]
      rfl
  | noDigits hne hopened h =>
      obtain ⟨s, hs, -⟩ := exists_sign token.toList
      rw [readInteger_of_not_isOpened hne hopened,
        readMagnitude_of_not_startsWithDigit (by decide) (h s _ hs)]
      rfl
  | invalid s hopened hs h hne =>
      have hnil : token.toList ≠ [] := by
        obtain ⟨d, rest, rfl⟩ := h
        simp [hs]
      rw [readInteger_of_not_isOpened hnil hopened, hs, splitSign_append h,
        readMagnitude_of_forall_ne (by decide) h hne]
      rfl

/-- Something becomes of every text. -/
theorem exists_integerReading (token : String) : ∃ o, IntegerReading token o := by
  by_cases hnil : token.toList = []
  · exact ⟨_, .empty hnil⟩
  by_cases hopened : IsOpened token
  · obtain ⟨mark, hmark, cs, hopens⟩ := hopened
    have hmarked : ∀ m : RadixMark, Opens token m.letter cs → ∃ o, IntegerReading token o := by
      intro m hm
      by_cases hdigit : StartsWithDigit m.radix cs
      · by_cases hn : ∃ n : Numeral m.radix, n.text = cs
        · obtain ⟨n, rfl⟩ := hn
          exact ⟨_, .literal (.marked m n) hm.1.symm⟩
        · exact ⟨_, .markedInvalid m hm hdigit (not_exists.1 hn)⟩
      · exact ⟨_, .markedNoDigits m hm hdigit⟩
    simp only [openingMarks, List.mem_cons, List.not_mem_nil, or_false] at hmark
    rcases hmark with rfl | rfl | rfl | rfl
    · by_cases hk : ∃ k : CharacterCode, k.text = cs
      · obtain ⟨k, rfl⟩ := hk
        exact ⟨_, .literal (.character k) hopens.1.symm⟩
      by_cases hchar : cs = ['\\'] ∨ cs.head? ≠ some '\\'
      · exact ⟨_, .invalidCharacter hopens (not_exists.1 hk) hchar⟩
      · obtain ⟨hlone, hhead⟩ := not_or.1 hchar
        exact ⟨_, .invalidEscape hopens (not_exists.1 hk) hlone (not_not.1 hhead)⟩
    · exact hmarked .binary hopens
    · exact hmarked .octal hopens
    · exact hmarked .hexadecimal hopens
  · obtain ⟨s, hs, -⟩ := exists_sign token.toList
    by_cases hdigit : StartsWithDigit 10 (splitSign token.toList).2
    · by_cases hn : ∃ n : Numeral 10, n.text = (splitSign token.toList).2
      · obtain ⟨n, hn⟩ := hn
        exact ⟨_, .literal (.decimal s n) (by rw [IntegerLiteral.text, hn, ← hs])⟩
      · exact ⟨_, .invalid s hopened hs hdigit (not_exists.1 hn)⟩
    · refine ⟨_, .noDigits hnil hopened fun s' cs' hs' hdigit' => hdigit ?_⟩
      rw [hs', splitSign_append hdigit']
      exact hdigit'

/-- **The reader is determined by the notations**: for every text, it gives exactly what becomes of
the text, the value of a literal or the failure that its form calls for. -/
theorem readInteger_eq_iff (token : String) (o : Except Failure Number) :
    readInteger token = o ↔ IntegerReading token o := by
  constructor
  · rintro rfl
    obtain ⟨o, ho⟩ := exists_integerReading token
    exact ho.readInteger_eq ▸ ho
  · exact IntegerReading.readInteger_eq

end Literal

end LogicTerms
