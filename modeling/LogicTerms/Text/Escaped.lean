/-
**Texts quoted in messages.**

A message quotes a text so that it stays on one line and shows what it holds: quotes, the backslash
and the common controls are written as short escapes, other unprintable characters by their code
point, and a combining mark likewise if nothing of the text stands before it.  Which characters
these are is a matter of the repertoire.

Main definitions:

* `Text.escape` — the quoted form of a text;
* `Text.codeEscape` — a character by its code point.

Main results:

* `Text.isUnprintable_of_mem_escape` — **in no repertoire is anything unprintable in a quoted text**;
* `Text.isCombining_head_escape` — nor does it begin with a combining character;
* `Text.escape_append` — after the first character, each is escaped on its own.
-/

import LogicTerms.Text.Unprintable

set_option relaxedAutoImplicit false
set_option autoImplicit false

namespace LogicTerms.Text

variable (chars : Repertoire)

/-- A character by its code point in hexadecimal, between braces. -/
def codeEscape (c : Char) : List Char :=
  ['\\', 'u', '\x7b'] ++ Nat.toDigits 16 c.toNat ++ ['\x7d']

/-- A character of a quoted text; the first one must not be combining. -/
def escapeChar (first : Bool) (c : Char) : List Char :=
  match c with
  | '\x00' => ['\\', '0']
  | '\t' => ['\\', 't']
  | '\n' => ['\\', 'n']
  | '\r' => ['\\', 'r']
  | '\'' => ['\\', '\'']
  | '"' => ['\\', '"']
  | '\\' => ['\\', '\\']
  | c => if first && chars.isCombining c || chars.isUnprintable c then codeEscape c else [c]

/-- The quoted form of a text. -/
def escape : List Char → List Char
  | [] => []
  | c :: cs => escapeChar chars true c ++ cs.flatMap (escapeChar chars false)

/-- After the first character, each is escaped on its own. -/
theorem escape_append (c : Char) (cs ds : List Char) :
    escape chars (c :: cs ++ ds) = escape chars (c :: cs) ++ ds.flatMap (escapeChar chars false) := by
  simp only [escape, List.cons_append, List.flatMap_append, List.append_assoc]

/-! ### What a quoted text holds -/

/-- A character of ASCII that is no control. -/
def isPlain (c : Char) : Bool := 32 ≤ c.toNat && c.toNat < 127

variable {chars} {c d : Char} {cs : List Char}

theorem isUnprintable_of_isPlain (h : isPlain c = true) : chars.isUnprintable c = false := by
  simp only [isPlain, Bool.and_eq_true, decide_eq_true_eq] at h
  rw [← Bool.not_eq_true, chars.unprintable_ascii c (by omega)]
  omega

theorem isCombining_of_isPlain (h : isPlain c = true) : chars.isCombining c = false := by
  simp only [isPlain, Bool.and_eq_true, decide_eq_true_eq] at h
  exact chars.combining_ascii c (by omega)

theorem isPlain_digitChar {n : Nat} (hn : n < 16) : isPlain (Nat.digitChar n) = true := by
  revert n
  decide

theorem isPlain_of_mem_toDigits {n : Nat} (h : d ∈ Nat.toDigits 16 n) : isPlain d = true := by
  induction n using Nat.strongRecOn with
  | ind n ih =>
    by_cases hn : n < 16
    · rw [Nat.toDigits_of_lt_base hn, List.mem_singleton] at h
      exact h ▸ isPlain_digitChar hn
    · rw [Nat.toDigits_of_base_le (by decide) (Nat.le_of_not_lt hn), List.mem_append,
        List.mem_singleton] at h
      obtain h | h := h
      · exact ih (n / 16) (by omega) h
      · exact h ▸ isPlain_digitChar (Nat.mod_lt n (by decide))

theorem all_isPlain_codeEscape (c : Char) : (codeEscape c).all isPlain = true := by
  have hdigits : (Nat.toDigits 16 c.toNat).all isPlain = true :=
    List.all_eq_true.mpr fun _ => isPlain_of_mem_toDigits
  rw [codeEscape, List.all_append, List.all_append, hdigits]
  rfl

/-- A character is quoted as itself, if it is printable and may stand where it does, and otherwise
by characters of ASCII that are no controls. -/
theorem escapeChar_cases (chars : Repertoire) (first : Bool) (c : Char) :
    (escapeChar chars first c = [c] ∧ (first && chars.isCombining c) = false ∧
      chars.isUnprintable c = false) ∨
    (escapeChar chars first c).all isPlain = true := by
  unfold escapeChar
  split
  case h_8 =>
    split
    · exact .inr (all_isPlain_codeEscape c)
    · rename_i h
      rw [Bool.not_eq_true, Bool.or_eq_false_iff] at h
      exact .inl ⟨rfl, h⟩
  all_goals exact .inr rfl

theorem escapeChar_ne_nil (chars : Repertoire) (first : Bool) (c : Char) :
    escapeChar chars first c ≠ [] := by
  unfold escapeChar
  split
  case h_8 => split <;> simp [codeEscape]
  all_goals simp

theorem isUnprintable_of_mem_escapeChar {first : Bool} (h : d ∈ escapeChar chars first c) :
    chars.isUnprintable d = false := by
  obtain ⟨heq, -, hc⟩ | hplain := escapeChar_cases chars first c
  · rw [heq, List.mem_singleton] at h
    exact h ▸ hc
  · exact isUnprintable_of_isPlain (List.all_eq_true.mp hplain d h)

/-- **In no repertoire is anything unprintable in a quoted text.** -/
theorem isUnprintable_of_mem_escape (h : d ∈ escape chars cs) : chars.isUnprintable d = false := by
  cases cs with
  | nil => cases h
  | cons c cs =>
    obtain h | h := List.mem_append.mp h
    · exact isUnprintable_of_mem_escapeChar h
    · obtain ⟨e, -, he⟩ := List.mem_flatMap.mp h
      exact isUnprintable_of_mem_escapeChar he

/-- Nor does a quoted text begin with a combining character. -/
theorem isCombining_head_escape (h : (escape chars cs).head? = some d) :
    chars.isCombining d = false := by
  cases cs with
  | nil => cases h
  | cons c cs =>
    obtain ⟨e, es, he⟩ := List.exists_cons_of_ne_nil (escapeChar_ne_nil chars true c)
    rw [escape, he, List.cons_append, List.head?_cons] at h
    obtain rfl := Option.some.inj h
    obtain ⟨heq, hc, -⟩ | hplain := escapeChar_cases chars true c
    · rw [he] at heq
      exact (List.cons.inj heq).1 ▸ hc
    · exact isCombining_of_isPlain (List.all_eq_true.mp hplain e (he ▸ List.mem_cons_self))

end LogicTerms.Text
