/-
**Room for nesting.**

A limit to how deep a text may be nested does not change what is read, only whether it is: each
reader reads the same with more room, if those do that it calls with one step less.  So whatever the
limit, nothing else is read from the text of a value than what was written.

Main definitions:

* `Json.Grows` — a reader reads the same with more room for nesting.

Main results:

* `Json.readBracketed_grows`, `Json.readParts_grows` — what is between brackets grows with the
  readers of its parts;
* `Json.readers_grow` — all readers do;
* `Json.readWithin?_mono` — **a text that is read is read the same with more room**;
* `Json.eq_written_of_readWithin?` — nothing else is read than what was written.
-/

import LogicTerms.Proofs.Json.Text

set_option relaxedAutoImplicit false
set_option autoImplicit false

namespace LogicTerms.Json

variable {j : Json}

/-! ### More room -/

/-- What is read is read the same with more room for nesting. -/
def Grows {α : Type} (read : ℕ → List Char → Option α) : Prop :=
  ∀ {depth depth' : ℕ}, depth ≤ depth' → ∀ {cs : List Char} {r : α}, read depth cs = some r →
    read depth' cs = some r

section Grows

variable {α : Type} {close : Char} {steps : ℕ}

/-- Between brackets there is room for one bracket less, so that there is more if there is more
around them. -/
theorem readBracketed_grows {parts : ℕ → List Char → Option (List α × List Char)}
    (hparts : Grows parts) : Grows (readBracketed close parts) := by
  intro depth depth' hd cs r h
  cases depth with
  | zero => cases h
  | succ depth =>
      obtain ⟨depth', rfl⟩ : ∃ k, depth' = k + 1 := ⟨depth' - 1, by omega⟩
      rw [readBracketed] at h ⊢
      cases hcs : skipBlanks cs with
      | nil =>
          rw [hcs] at h
          cases h
      | cons c cs =>
          rw [hcs] at h
          simp only at h ⊢
          by_cases hc : c = close
          · rw [if_pos hc] at h ⊢
            exact h
          · rw [if_neg hc] at h ⊢
            exact hparts (Nat.le_of_succ_le_succ hd) h

theorem readParts_grows {first : ℕ → List Char → Option (α × List Char)}
    {more : ℕ → List Char → Option (List α × List Char)} (hfirst : Grows first)
    (hmore : Grows more) : Grows (readParts close first more) := by
  intro depth depth' hd cs r h
  rw [readParts] at h ⊢
  cases hs : first depth cs with
  | none =>
      rw [hs] at h
      cases h
  | some p =>
      rw [hfirst hd hs]
      rw [hs] at h
      simp only at h ⊢
      -- behind the first part are the closing bracket, or a comma and more parts
      split at h
      · cases h
      · rename_i c cs _
        by_cases hclose : c = close
        · rw [if_pos hclose] at h ⊢
          exact h
        · rw [if_neg hclose] at h ⊢
          split at h
          · rename_i hcomma
            obtain ⟨r', hr', rfl⟩ := Option.map_eq_some_iff.1 h
            rw [if_pos hcomma, hmore hd hr', Option.map_some]
          · cases h

theorem readMember_grows (hvalue : Grows (readValue steps)) : Grows (readMember (steps + 1)) := by
  intro depth depth' hd cs r h
  unfold readMember at h ⊢
  split at h
  · split at h
    · cases h
    · split at h
      · obtain ⟨r', hr', rfl⟩ := Option.map_eq_some_iff.1 h
        simp only [*, hvalue hd hr', Option.map_some]
      · cases h
  · cases h

theorem readValue_grows (hitems : Grows (readItems steps)) (hmembers : Grows (readMembers steps)) :
    Grows (readValue (steps + 1)) := by
  intro depth depth' hd cs r h
  rw [readValue] at h ⊢
  split at h
  · exact h
  · obtain ⟨r', hr', rfl⟩ := Option.map_eq_some_iff.1 h
    rw [readBracketed_grows hitems hd hr', Option.map_some]
  · obtain ⟨r', hr', rfl⟩ := Option.map_eq_some_iff.1 h
    rw [readBracketed_grows hmembers hd hr', Option.map_some]
  · exact h

end Grows

theorem readers_grow (steps : ℕ) :
    Grows (readValue steps) ∧ Grows (readItems steps) ∧ Grows (readMembers steps) ∧
      Grows (readMember steps) := by
  induction steps with
  | zero =>
      refine ⟨?_, ?_, ?_, ?_⟩ <;> intro depth depth' _ cs r h
      · rw [readValue] at h
        cases h
      · rw [readItems] at h
        cases h
      · rw [readMembers] at h
        cases h
      · rw [readMember] at h
        cases h
  | succ steps ih =>
      obtain ⟨hvalue, hitems, hmembers, hmember⟩ := ih
      refine ⟨readValue_grows hitems hmembers, ?_, ?_, readMember_grows hvalue⟩
      · exact readParts_grows hvalue hitems
      · exact readParts_grows hmember hmembers

/-- **A text that is read is read the same with more room for nesting.** -/
theorem readWithin?_mono {depth depth' : ℕ} (hd : depth ≤ depth') {text : String}
    (h : readWithin? depth text = some j) : readWithin? depth' text = some j := by
  dsimp only [readWithin?] at h ⊢
  split at h
  · rename_i hs
    rw [(readers_grow _).1 hd hs]
    exact h
  · cases h

/-- Whatever room there is for nesting, nothing else is read than what was written. -/
theorem eq_written_of_readWithin? {depth : ℕ} {j' : Json} (hj : j.IsPlain)
    (h : readWithin? depth j.text = some j') : j' = j.written := by
  have hmax := readWithin?_mono (le_max_left depth j.depth) h
  rw [readWithin?_text hj (le_max_right depth j.depth)] at hmax
  exact (Option.some.inj hmax).symm

end LogicTerms.Json
