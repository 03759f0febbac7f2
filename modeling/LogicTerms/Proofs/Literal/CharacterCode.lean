/-
**The notations of character codes.**

Behind its opening, a character code has one of five notations: a character other than the
backslash, a quote written twice, a backslash with a letter or mark that stands for a character, or
between two backslashes the code in octal digits, or in hexadecimal ones behind an `x`.  They are
said here as data, with their texts and the codes that they denote, and the reader is proved to take
these texts and no others.

Main definitions:

* `CharacterCode` — a notation of a character code;
* `CharacterCode.text`, `CharacterCode.code` — how it is written, and what it denotes.

Main results:

* `Literal.escape?_eq_some_iff` — the notations that start with a backslash;
* `Literal.readCharacter_text` — **every notation is read as its code**;
* `Literal.readCharacter_of_forall_ne` — and what becomes of all other texts.
-/

import LogicTerms.Literal.Character
import LogicTerms.Proofs.Literal.Numeral
import Mathlib.Data.List.TakeWhile

set_option relaxedAutoImplicit false
set_option autoImplicit false

namespace LogicTerms

/-! ### Notations -/

/-- The letters and marks that stand for a character behind a backslash, with its code. -/
def namedEscapes : List (Char × ℕ) :=
  [('\\', 92), ('\'', 39), ('"', 34), ('\x60', 96), ('a', 7), ('b', 8), ('f', 12), ('n', 10),
    ('r', 13), ('s', 32), ('t', 9), ('v', 11)]

/-- A notation of a character code, behind the opening. -/
inductive CharacterCode where
  /-- The character itself. -/
  | plain (c : Char) (h : c ≠ '\\')
  /-- A quote written twice. -/
  | doubledQuote
  /-- A backslash and a letter or mark. -/
  | named (mark : Char) (code : ℕ) (h : (mark, code) ∈ namedEscapes)
  /-- The code in hexadecimal. -/
  | hexadecimal (n : Numeral 16) (h : n.value.isValidChar)
  /-- The code in octal. -/
  | octal (n : Numeral 8) (h : n.value.isValidChar)

namespace CharacterCode

/-- How the notation is written. -/
def text : CharacterCode → List Char
  | plain c _ => [c]
  | doubledQuote => ['\'', '\'']
  | named mark _ _ => ['\\', mark]
  | hexadecimal n _ => '\\' :: 'x' :: (n.text ++ ['\\'])
  | octal n _ => '\\' :: (n.text ++ ['\\'])

/-- The code point that the notation denotes. -/
def code : CharacterCode → ℕ
  | plain c _ => c.toNat
  | doubledQuote => 39
  | named _ code _ => code
  | hexadecimal n _ => n.value
  | octal n _ => n.value

theorem text_ne_nil (k : CharacterCode) : k.text ≠ [] := by
  cases k <;> simp [text]

end CharacterCode

namespace Literal

variable {radix : ℕ} {c : Char} {cs : List Char}

/-! ### Escapes -/

theorem exists_ofCodePoint? {n : ℕ} (h : n.isValidChar) :
    ∃ c, Text.ofCodePoint? n = some c ∧ c.toNat = n := by
  have hc : Text.ofCodePoint? n = some (Char.ofNat n) := if_pos h
  exact ⟨_, hc, (Text.ofCodePoint?_eq_some_iff.1 hc).symm⟩

/-- A numeric escape is a numeral of the code, and a backslash. -/
theorem numericEscape?_eq_some_iff (hradix : radix ≤ 16) :
    numericEscape? radix cs = some c ↔
      ∃ n : Numeral radix, n.text ++ ['\\'] = cs ∧ n.value = c.toNat := by
  constructor
  · intro h
    simp only [numericEscape?] at h
    split at h
    · rename_i hdrop
      split at h
      · exact nomatch h
      · rename_i hne
        have hdigits : ∀ d ∈ cs.takeWhile (isDigit radix), isDigit radix d = true :=
          fun d hd => List.mem_takeWhile_imp hd
        obtain ⟨n, hn⟩ := (Numeral.exists_text_eq_iff hradix).2 ⟨by simpa using hne, hdigits⟩
        rw [← hn, n.ofDigits_text hradix, Text.ofCodePoint?_eq_some_iff] at h
        refine ⟨n, ?_, h⟩
        rw [hn, ← hdrop, List.takeWhile_append_dropWhile]
    · exact nomatch h
  · rintro ⟨n, rfl, hn⟩
    have hdigits : ∀ d ∈ n.text, isDigit radix d = true :=
      fun d hd => Numeral.isDigit_of_mem_text hradix hd
    have htake : (n.text ++ ['\\']).takeWhile (isDigit radix) = n.text := by
      rw [List.takeWhile_append_of_pos hdigits]
      exact List.append_nil _
    have hdrop : (n.text ++ ['\\']).dropWhile (isDigit radix) = ['\\'] := by
      rw [List.dropWhile_append_of_pos hdigits]
      rfl
    have hne : n.text.isEmpty = false := by simpa using n.text_ne_nil
    rw [numericEscape?, hdrop, htake, hne]
    exact Text.ofCodePoint?_eq_some_iff.2 ((n.ofDigits_text hradix).trans hn)

theorem mem_namedEscapes {mark : Char} (h : namedEscape? mark = some c) :
    (mark, c.toNat) ∈ namedEscapes := by
  unfold namedEscape? at h
  split at h <;> cases h <;> decide

/-- An escape is read if it is, with its backslash, the notation of a code. -/
theorem escape?_eq_some_iff :
    escape? cs = some c ↔ ∃ k : CharacterCode, k.text = '\\' :: cs ∧ k.code = c.toNat := by
  constructor
  · intro h
    unfold escape? at h
    split at h
    · obtain ⟨n, rfl, hn⟩ := (numericEscape?_eq_some_iff (by decide)).1 h
      exact ⟨.hexadecimal n (hn ▸ c.valid), rfl, hn⟩
    · rename_i d ds _
      split at h
      · obtain ⟨n, hds, hn⟩ := (numericEscape?_eq_some_iff (by decide)).1 h
        exact ⟨.octal n (hn ▸ c.valid), congrArg _ hds, hn⟩
      · split at h
        · rename_i hnil
          rw [List.isEmpty_iff.1 hnil]
          exact ⟨.named d c.toNat (mem_namedEscapes h), rfl, rfl⟩
        · exact nomatch h
    · exact nomatch h
  · rintro ⟨k, hk, hc⟩
    cases k with
    | plain d hd => exact absurd (List.cons.inj hk).1 hd
    | doubledQuote => exact absurd (List.cons.inj hk).1 (by decide)
    | named mark code h =>
        -- none of the letters and marks is an octal digit or the mark of hexadecimal digits
        have htable : ∀ p ∈ namedEscapes, (escape? [p.1]).map Char.toNat = some p.2 := by decide
        obtain ⟨d, hd, hcode⟩ := Option.map_eq_some_iff.1 (htable _ h)
        have hdc : d = c := Char.toNat_inj.1 (hcode.trans hc)
        rw [← (List.cons.inj hk).2, ← hdc]
        exact hd
    | hexadecimal n h =>
        rw [← (List.cons.inj hk).2]
        exact (numericEscape?_eq_some_iff (by decide)).2 ⟨n, rfl, hc⟩
    | octal n h =>
        rw [← (List.cons.inj hk).2]
        have hread : numericEscape? 8 (n.text ++ ['\\']) = some c :=
          (numericEscape?_eq_some_iff (by decide)).2 ⟨n, rfl, hc⟩
        obtain ⟨d, ds, hn⟩ := List.exists_cons_of_ne_nil n.text_ne_nil
        have hd : isDigit 8 d = true :=
          Numeral.isDigit_of_mem_text (by decide) (hn ▸ List.mem_cons_self)
        have hx : d ≠ 'x' := by
          rintro rfl
          exact absurd hd (by decide)
        rw [hn, List.cons_append] at hread ⊢
        rw [escape?, if_pos hd, hread]
        exact hx

/-! ### Character codes -/

/-- **Every notation is read as its code.** -/
theorem readCharacter_text (token : String) (k : CharacterCode) :
    ∃ c, readCharacter token k.text = .ok c ∧ c.toNat = k.code := by
  have hescape : ∀ {cs}, k.text = '\\' :: cs → cs ≠ [] → k.code.isValidChar →
      ∃ c, readCharacter token k.text = .ok c ∧ c.toNat = k.code := by
    intro cs hk hne hcode
    obtain ⟨c, -, hc⟩ := exists_ofCodePoint? hcode
    refine ⟨c, ?_, hc⟩
    simp [hk, readCharacter, escape?_eq_some_iff.2 ⟨k, hk, hc.symm⟩, hne]
  cases k with
  | plain c h => exact ⟨c, by simp [CharacterCode.text, readCharacter, h], rfl⟩
  | doubledQuote => exact ⟨'\'', rfl, rfl⟩
  | named mark code h =>
      have hvalid : ∀ p ∈ namedEscapes, p.2.isValidChar := by decide
      exact hescape rfl (List.cons_ne_nil _ _) (hvalid _ h)
  | hexadecimal n h => exact hescape rfl (List.cons_ne_nil _ _) h
  | octal n h => exact hescape rfl (by simp) h

/-- Any other text has an unknown or unfinished escape if it starts with a backslash and goes on,
and otherwise names no character or more than one. -/
theorem readCharacter_of_forall_ne (token : String) (h : ∀ k : CharacterCode, k.text ≠ cs) :
    readCharacter token cs =
      .error (if cs = ['\\'] ∨ cs.head? ≠ some '\\' then .invalidCharacter token
        else .invalidEscape token) := by
  cases cs with
  | nil => simp [readCharacter]
  | cons c cs =>
      by_cases hc : c = '\\'
      · subst hc
        by_cases hnil : cs = []
        · simp [readCharacter, hnil]
        · have hnone : escape? cs = none := by
            refine Option.eq_none_iff_forall_ne_some.2 fun d hd => ?_
            obtain ⟨k, hk, -⟩ := escape?_eq_some_iff.1 hd
            exact h k hk
          simp [readCharacter, hnil, hnone]
      · have hnil : cs ≠ [] := fun hnil => h (.plain c hc) (by rw [hnil]; rfl)
        have hquote : ¬ (c = '\'' ∧ cs = ['\'']) := by
          rintro ⟨rfl, rfl⟩
          exact h .doubledQuote rfl
        simp [readCharacter, hc, hnil, hquote]

end Literal

end LogicTerms
