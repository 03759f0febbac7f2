/-
**Numerals.**

A numeral is one or more digits of a radix.  Its text is the characters of its digits, a letter in
either case, and it denotes the number that the digits spell in the positional system of the radix.
This is what the readers of literals look for, and it is said here without them: a text is that of a
numeral exactly if a reader takes all its characters for digits, and then it reads the number that
the numeral denotes.

Main definitions:

* `Digit`, `Numeral` — a digit as it is written, and one or more of them;
* `Numeral.text`, `Numeral.value` — how a numeral is written, and what it denotes;
* `Numeral.single`, `Numeral.append` — one digit, and one numeral behind another;
* `Sign` — an optional sign;
* `Literal.StartsWithDigit` — a text that starts with a digit.

Main results:

* `Literal.isDigit_iff` — the characters that are taken for digits;
* `Numeral.exists_text_eq_iff` — the texts of numerals;
* `Numeral.ofDigits_text` — **numerals are read as what they denote**;
* `Numeral.exists_zeros_append`, `Numeral.exists_toDigits`, `Numeral.exists_of_toLower` — the
  numerals that denote a number: its digits, behind any zeros and in either case;
* `Literal.natural?_eq_some_iff` — the whole numbers in decimal;
* `Literal.splitSign_append` — a sign in front of a digit is split off.
-/

import LogicTerms.Literal.Digits
import Mathlib.Data.List.Induction
import Mathlib.Data.Nat.Digits.Defs
import Mathlib.Tactic.IntervalCases
import Mathlib.Tactic.Ring

set_option relaxedAutoImplicit false
set_option autoImplicit false

-- powers of natural numbers are the same ones, whatever else is imported
attribute [default_instance 20000, instance (10000)] instPowNat

namespace LogicTerms

/-- The members of a list are checked one after the other, however many values their type has. -/
theorem forall_mem_of_all {α : Type} {p : α → Prop} [DecidablePred p] {l : List α}
    (h : (l.all fun a => decide (p a)) = true) : ∀ a ∈ l, p a := by
  simpa using h

variable {radix : ℕ}

/-! ### Digits -/

/-- A digit of a radix as it is written. -/
structure Digit (radix : ℕ) where
  /-- What it stands for. -/
  value : Fin radix
  /-- Whether a letter is a capital. -/
  capital : Bool

/-- The character of a digit. -/
def Digit.char (d : Digit radix) : Char :=
  if d.capital then (Nat.digitChar d.value).toUpper else Nat.digitChar d.value

namespace Literal

/-- Up to sixteen, a character has the value of a digit if it is that digit in either case. -/
theorem digitValue?_eq_some_iff {c : Char} {n : ℕ} :
    digitValue? c = some n ↔ n < 16 ∧ (c = n.digitChar ∨ c = n.digitChar.toUpper) := by
  constructor
  · intro h
    have hc : c = Char.ofNat c.toNat := (Char.ofNat_toNat c).symm
    rw [hc]
    rw [digitValue?] at h
    generalize c.toNat = k at h ⊢
    -- three runs of characters, each of them short
    split at h
    · obtain ⟨h₁, h₂⟩ := ‹48 ≤ k ∧ k ≤ 57›
      cases h
      interval_cases k <;> decide
    · split at h
      · obtain ⟨h₁, h₂⟩ := ‹97 ≤ k ∧ k ≤ 102›
        cases h
        interval_cases k <;> decide
      · split at h
        · obtain ⟨h₁, h₂⟩ := ‹65 ≤ k ∧ k ≤ 70›
          cases h
          interval_cases k <;> decide
        · exact nomatch h
  · rintro ⟨hn, rfl | rfl⟩
    · interval_cases n <;> rfl
    · interval_cases n <;> rfl

theorem digitValue?_char (hradix : radix ≤ 16) (d : Digit radix) :
    digitValue? d.char = some d.value.val := by
  have hd := d.value.isLt
  refine digitValue?_eq_some_iff.2 ⟨by omega, ?_⟩
  rw [Digit.char]
  split
  · exact .inr rfl
  · exact .inl rfl

/-- **The characters that are taken for digits** of a radix are those of its digits. -/
theorem isDigit_iff (hradix : radix ≤ 16) {c : Char} :
    isDigit radix c = true ↔ ∃ d : Digit radix, d.char = c := by
  rw [isDigit, Option.any_eq_true]
  constructor
  · rintro ⟨n, hn, hlt⟩
    have hlt : n < radix := by simpa using hlt
    obtain ⟨-, rfl | rfl⟩ := digitValue?_eq_some_iff.1 hn
    · exact ⟨⟨⟨n, hlt⟩, false⟩, rfl⟩
    · exact ⟨⟨⟨n, hlt⟩, true⟩, rfl⟩
  · rintro ⟨d, rfl⟩
    exact ⟨_, digitValue?_char hradix d, by simp⟩

/-- A letter is the same digit in either case. -/
theorem digitValue?_toLower (c : Char) : digitValue? c.toLower = digitValue? c := by
  by_cases hc : 65 ≤ c.toNat ∧ c.toNat ≤ 90
  · obtain ⟨h₁, h₂⟩ := hc
    rw [← Char.ofNat_toNat c]
    generalize c.toNat = k at h₁ h₂ ⊢
    interval_cases k <;> rfl
  · have hlower : c.toLower = c := dif_neg fun h => hc ⟨h.1, h.2⟩
    rw [hlower]

theorem isDigit_toLower (c : Char) : isDigit radix c.toLower = isDigit radix c := by
  rw [isDigit, isDigit, digitValue?_toLower]

theorem ofDigits_map_toLower (cs : List Char) :
    ofDigits radix (cs.map Char.toLower) = ofDigits radix cs := by
  simp only [ofDigits, List.foldl_map, digitValue?_toLower]

end Literal

/-! ### Numerals -/

/-- One or more digits of a radix. -/
structure Numeral (radix : ℕ) where
  /-- The digits, from left to right. -/
  digits : List (Digit radix)
  /-- There is one. -/
  ne_nil : digits ≠ []

namespace Numeral

open Literal

/-- The characters of the digits. -/
def text (n : Numeral radix) : List Char := n.digits.map Digit.char

/-- The number that the digits spell. -/
def value (n : Numeral radix) : ℕ := Nat.ofDigits radix (n.digits.map fun d => d.value.val).reverse

theorem text_ne_nil (n : Numeral radix) : n.text ≠ [] := by
  simpa [text] using n.ne_nil

theorem length_text (n : Numeral radix) : n.text.length = n.digits.length := List.length_map _

theorem isDigit_of_mem_text (hradix : radix ≤ 16) {n : Numeral radix} {c : Char}
    (h : c ∈ n.text) : isDigit radix c = true := by
  obtain ⟨d, -, rfl⟩ := List.mem_map.1 h
  exact (isDigit_iff hradix).2 ⟨d, rfl⟩

/-- The texts of numerals are the runs of digits. -/
theorem exists_text_eq_iff (hradix : radix ≤ 16) {cs : List Char} :
    (∃ n : Numeral radix, n.text = cs) ↔ cs ≠ [] ∧ ∀ c ∈ cs, isDigit radix c = true := by
  constructor
  · rintro ⟨n, rfl⟩
    exact ⟨n.text_ne_nil, fun c hc => isDigit_of_mem_text hradix hc⟩
  · rintro ⟨hne, hall⟩
    have hdigits : ∀ c ∈ cs, ∃ d : Digit radix, d.char = c :=
      fun c hc => (isDigit_iff hradix).1 (hall c hc)
    obtain ⟨ds, rfl⟩ : ∃ ds : List (Digit radix), ds.map Digit.char = cs := by
      clear hne hall
      induction cs with
      | nil => exact ⟨[], rfl⟩
      | cons c cs ih =>
          obtain ⟨d, hd⟩ := hdigits c List.mem_cons_self
          obtain ⟨ds, hds⟩ := ih fun e he => hdigits e (List.mem_cons_of_mem c he)
          exact ⟨d :: ds, by rw [List.map_cons, hd, hds]⟩
    exact ⟨⟨ds, by simpa using hne⟩, rfl⟩

/-- **Numerals are read as what they denote.** -/
theorem ofDigits_text (hradix : radix ≤ 16) (n : Numeral radix) :
    ofDigits radix n.text = n.value := by
  rw [text, value]
  -- from the right end, where a digit is added
  induction n.digits using List.reverseRecOn with
  | nil => rfl
  | append_singleton ds d ih =>
      rw [List.map_append, List.map_singleton, ofDigits_append_singleton, ih,
        digitValue?_char hradix d, Option.getD_some, List.map_append, List.map_singleton,
        List.reverse_append, List.reverse_singleton, List.singleton_append, Nat.ofDigits_cons]
      ring

/-! ### Building numerals -/

/-- One digit. -/
def single (d : Fin radix) : Numeral radix := ⟨[⟨d, false⟩], List.cons_ne_nil _ _⟩

@[simp] theorem length_single (d : Fin radix) : (single d).digits.length = 1 := rfl

@[simp] theorem value_single (d : Fin radix) : (single d).value = d := by
  simp [value, single]

/-- The digits of one numeral behind those of another. -/
def append (n k : Numeral radix) : Numeral radix where
  digits := n.digits ++ k.digits
  ne_nil := by simp [n.ne_nil]

theorem text_append (n k : Numeral radix) : (n.append k).text = n.text ++ k.text :=
  List.map_append

/-- The digits in front count as many powers of the radix as there are digits behind them. -/
theorem value_append (n k : Numeral radix) :
    (n.append k).value = n.value * radix ^ k.digits.length + k.value := by
  rw [value, append, List.map_append, List.reverse_append, Nat.ofDigits_append, List.length_reverse,
    List.length_map, value, value]
  ring

/-- Zeros in front count for nothing. -/
theorem exists_zeros_append (hradix : 0 < radix) (zeros : ℕ) (n : Numeral radix) :
    ∃ k : Numeral radix, k.text = List.replicate zeros '0' ++ n.text ∧ k.value = n.value := by
  induction zeros with
  | zero => exact ⟨n, rfl, rfl⟩
  | succ zeros ih =>
      obtain ⟨k, htext, hvalue⟩ := ih
      refine ⟨(single ⟨0, hradix⟩).append k, ?_, ?_⟩
      · rw [text_append, htext, List.replicate_succ, List.cons_append]
        rfl
      · rw [value_append, value_single, hvalue, Nat.zero_mul, Nat.zero_add]

/-- The digits of a number in a radix are a numeral that denotes it. -/
theorem exists_toDigits (hradix : 1 < radix) (n : ℕ) :
    ∃ k : Numeral radix, k.text = Nat.toDigits radix n ∧ k.value = n := by
  induction n using Nat.strongRecOn with
  | ind n ih =>
      by_cases hn : n < radix
      · refine ⟨.single ⟨n, hn⟩, ?_, value_single _⟩
        rw [Nat.toDigits_of_lt_base hn]
        rfl
      · have hle : radix ≤ n := not_lt.1 hn
        obtain ⟨k, htext, hvalue⟩ := ih (n / radix) (Nat.div_lt_self (by omega) hradix)
        refine ⟨k.append (.single ⟨n % radix, Nat.mod_lt n (by omega)⟩), ?_, ?_⟩
        · rw [text_append, htext, Nat.toDigits_of_base_le hradix hle]
          rfl
        · rw [value_append, hvalue, value_single, length_single, Nat.pow_one]
          exact Nat.div_add_mod' n radix

/-- Letters in the other case are the same digits. -/
theorem exists_of_toLower (hradix : radix ≤ 16) {n : Numeral radix} {cs : List Char}
    (h : cs.map Char.toLower = n.text) : ∃ k : Numeral radix, k.text = cs ∧ k.value = n.value := by
  have hne : cs ≠ [] := by
    rintro rfl
    exact n.text_ne_nil h.symm
  have hall : ∀ c ∈ cs, isDigit radix c = true := by
    intro c hc
    rw [← isDigit_toLower]
    exact isDigit_of_mem_text hradix (h ▸ List.mem_map_of_mem hc)
  obtain ⟨k, rfl⟩ := (exists_text_eq_iff hradix).2 ⟨hne, hall⟩
  refine ⟨k, rfl, ?_⟩
  rw [← ofDigits_text hradix, ← ofDigits_text hradix, ← h, ofDigits_map_toLower]

end Numeral

/-! ### Decimal numerals -/

section Decimal

open Literal

variable {n : Numeral 10} {c : Char} {cs : List Char}

theorem Numeral.isDigit_of_mem_decimal (h : c ∈ n.text) : isDigit 10 c = true :=
  isDigit_of_mem_text (by decide) h

/-- The characters of a numeral are none of the marks around it. -/
theorem Numeral.ne_of_mem_decimal {mark : Char} (hc : c ∈ n.text)
    (hmark : isDigit 10 mark = false) : c ≠ mark := by
  rintro rfl
  rw [isDigit_of_mem_decimal hc] at hmark
  exact nomatch hmark

/-- A run of digits is a numeral. -/
theorem Numeral.exists_of_digits (hne : cs ≠ []) (h : ∀ c ∈ cs, isDigit 10 c = true) :
    ∃ n : Numeral 10, n.text = cs ∧ n.value = ofDigits 10 cs ∧ n.digits.length = cs.length := by
  obtain ⟨n, rfl⟩ := (exists_text_eq_iff (by decide)).2 ⟨hne, h⟩
  exact ⟨n, rfl, (n.ofDigits_text (by decide)).symm, n.length_text.symm⟩

/-- A text is read as a whole number if it is that of a decimal numeral. -/
theorem Literal.natural?_eq_some_iff {k : ℕ} :
    natural? cs = some k ↔ ∃ n : Numeral 10, n.text = cs ∧ n.value = k := by
  have hiff : (!cs.isEmpty && cs.all (isDigit 10)) = true ↔
      cs ≠ [] ∧ ∀ c ∈ cs, isDigit 10 c = true := by
    simp
  rw [natural?]
  constructor
  · intro h
    split at h
    · obtain ⟨hne, hall⟩ := hiff.1 ‹_›
      obtain ⟨n, rfl, hvalue, -⟩ := Numeral.exists_of_digits hne hall
      exact ⟨n, rfl, hvalue.trans (Option.some.inj h)⟩
    · exact nomatch h
  · rintro ⟨n, rfl, rfl⟩
    rw [if_pos (hiff.2 ⟨n.text_ne_nil, fun c hc => Numeral.isDigit_of_mem_decimal hc⟩),
      n.ofDigits_text (by decide)]

theorem Literal.natural?_text (n : Numeral 10) : natural? n.text = some n.value :=
  natural?_eq_some_iff.2 ⟨n, rfl, rfl⟩

/-- Numerals of one text denote one number. -/
theorem Numeral.value_eq_of_text_eq {k : Numeral 10} (h : n.text = k.text) : n.value = k.value :=
  Option.some.inj (by rw [← natural?_text, ← natural?_text, h])

end Decimal

/-! ### Signs -/

/-- An optional sign. -/
inductive Sign where
  | none
  | plus
  | minus
  deriving DecidableEq

namespace Sign

/-- How a sign is written. -/
def text : Sign → List Char
  | none => []
  | plus => ['+']
  | minus => ['-']

/-- A number behind a sign. -/
def apply {α : Type} [Neg α] : Sign → α → α
  | minus, x => -x
  | _, x => x

theorem apply_eq_ite {α : Type} [Neg α] (s : Sign) (x : α) :
    s.apply x = if decide (s = minus) then -x else x := by
  cases s <;> rfl

end Sign

namespace Literal

variable {cs : List Char}

/-- The text starts with a digit of the radix. -/
def StartsWithDigit (radix : ℕ) (cs : List Char) : Prop :=
  ∃ (d : Digit radix) (rest : List Char), cs = d.char :: rest

theorem startsWithDigit_iff (hradix : radix ≤ 16) :
    StartsWithDigit radix cs ↔ cs.head?.any (isDigit radix) = true := by
  cases cs with
  | nil => simp [StartsWithDigit]
  | cons c cs =>
      rw [List.head?_cons, Option.any_some, isDigit_iff hradix]
      constructor
      · rintro ⟨d, rest, h⟩
        exact ⟨d, (List.cons.inj h).1.symm⟩
      · rintro ⟨d, rfl⟩
        exact ⟨d, cs, rfl⟩

theorem startsWithDigit_text (n : Numeral radix) : StartsWithDigit radix n.text := by
  obtain ⟨d, ds, hd⟩ := List.exists_cons_of_ne_nil n.ne_nil
  exact ⟨d, ds.map Digit.char, by rw [Numeral.text, hd, List.map_cons]⟩

theorem StartsWithDigit.append (h : StartsWithDigit radix cs) (rest : List Char) :
    StartsWithDigit radix (cs ++ rest) := by
  obtain ⟨d, ds, rfl⟩ := h
  exact ⟨d, ds ++ rest, rfl⟩

/-- The sign of a text is split off. -/
theorem exists_sign (cs : List Char) :
    ∃ s : Sign, cs = s.text ++ (splitSign cs).2 ∧ (splitSign cs).1 = decide (s = .minus) := by
  unfold splitSign
  split
  · exact ⟨.minus, rfl, rfl⟩
  · exact ⟨.plus, rfl, rfl⟩
  · exact ⟨.none, rfl, rfl⟩

/-- A sign in front of a digit is split off. -/
theorem splitSign_append {s : Sign} (h : StartsWithDigit 10 cs) :
    splitSign (s.text ++ cs) = (decide (s = .minus), cs) := by
  have hhead := (startsWithDigit_iff (by decide)).1 h
  cases s with
  | none =>
      have hsigns : isDigit 10 '-' = false ∧ isDigit 10 '+' = false := by decide
      rw [Sign.text, List.nil_append]
      unfold splitSign
      split
      · simp [hsigns.1] at hhead
      · simp [hsigns.2] at hhead
      · rfl
  | plus => rfl
  | minus => rfl

end Literal

end LogicTerms
