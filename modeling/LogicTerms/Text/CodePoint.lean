/-
**Characters by their code points.**

A number below `0x110000` that is not a surrogate is the code point of exactly one character.

Main definitions:

* `Text.ofCodePoint?` — the character with a code point.

Main results:

* `Text.ofCodePoint?_eq_some_iff` — it is found exactly at its own code point.
-/

set_option relaxedAutoImplicit false
set_option autoImplicit false

namespace LogicTerms.Text

/-- The character with a code point; none for a surrogate or a number that is too large. -/
def ofCodePoint? (n : Nat) : Option Char :=
  if n.isValidChar then some (Char.ofNat n) else none

@[simp] theorem ofCodePoint?_toNat (c : Char) : ofCodePoint? c.toNat = some c := by
  have h : c.toNat.isValidChar := c.valid
  rw [ofCodePoint?, if_pos h, Char.ofNat_toNat]

/-- A character is found exactly at its own code point. -/
theorem ofCodePoint?_eq_some_iff {n : Nat} {c : Char} : ofCodePoint? n = some c ↔ n = c.toNat := by
  constructor
  · intro h
    unfold ofCodePoint? at h
    split at h
    · rename_i hv
      have hn : (Char.ofNat n).toNat = n := by
        rw [Char.ofNat, dif_pos hv]
        rfl
      rw [← Option.some.inj h, hn]
    · exact nomatch h
  · rintro rfl
    exact ofCodePoint?_toNat c

end LogicTerms.Text
