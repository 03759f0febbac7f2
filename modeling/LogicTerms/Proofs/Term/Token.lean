/-
**Names and numbers in the text of a term.**

A term is written with names and numbers, its *tokens*, and with parentheses, brackets, commas and
bars between them.  Where a token ends can be seen from its text alone: a quoted name ends at the
first quote that is not escaped, the name of the empty list at its bracket, and any other token
before the first separator, because it has none.  Within these bounds a token is known by its text:
quoting can be undone, and a bare name either starts with a letter or has no digit at all, so that
it is never a number.

Main definitions:

* `Token` — a name or a number;
* `Term.StartsWithin`, `Term.separators` — a text that starts with a separator or is empty;
* `Term.IsLexeme` — the three forms of a token.

Main results:

* `Term.IsLexeme.append_inj` — where a token ends;
* `Term.quoteName_inj` — different names are written differently;
* `Token.text_append_inj` — **a token and what follows it can be told from the text**.
-/

import LogicTerms.Proofs.Number.Text
import LogicTerms.Term.Text

set_option relaxedAutoImplicit false
set_option autoImplicit false

namespace LogicTerms

namespace Term

open Literal

variable {a b : List Char} {c : Char} {cs ds r r' : List Char}

/-! ### Separators -/

/-- The text is empty or starts with one of the characters. -/
def StartsWithin (chars cs : List Char) : Prop := ∀ c ∈ cs.head?, c ∈ chars

theorem startsWithin_nil (chars : List Char) : StartsWithin chars [] := fun _ h => nomatch h

theorem startsWithin_cons {chars : List Char} (h : c ∈ chars) : StartsWithin chars (c :: cs) := by
  intro e he
  cases he
  exact h

/-- Characters that separate tokens, and the quote. -/
def separators : List Char := ['(', ')', '[', ']', ',', '|', '\'']

/-- Without separators in it, a text ends where it is separated from the next. -/
theorem append_inj_of_separated (ha : ∀ c ∈ a, c ∉ separators) (hb : ∀ c ∈ b, c ∉ separators)
    (hr : StartsWithin separators r) (hr' : StartsWithin separators r')
    (h : a ++ r = b ++ r') : a = b ∧ r = r' := by
  induction a generalizing b with
  | nil =>
      cases b with
      | nil => exact ⟨rfl, h⟩
      | cons c b =>
          have hc : c ∈ separators := hr c (by rw [show r = c :: (b ++ r') from h]; rfl)
          exact absurd hc (hb c List.mem_cons_self)
  | cons c a ih =>
      cases b with
      | nil =>
          have hc : c ∈ separators := hr' c (by rw [← show c :: (a ++ r) = r' from h]; rfl)
          exact absurd hc (ha c List.mem_cons_self)
      | cons d b =>
          obtain ⟨rfl, htail⟩ := List.cons.inj h
          obtain ⟨rfl, rfl⟩ := ih (fun c hc => ha c (List.mem_cons_of_mem _ hc))
            (fun c hc => hb c (List.mem_cons_of_mem _ hc)) htail
          exact ⟨rfl, rfl⟩

/-! ### Quotes -/

/-- The first character between quotes, and what follows it; nothing at the closing quote. -/
def unquoteChar? : List Char → Option (Char × List Char)
  | [] => none
  | '\'' :: _ => none
  | '\\' :: '\'' :: cs => some ('\'', cs)
  | '\\' :: '\\' :: cs => some ('\\', cs)
  | '\\' :: 'n' :: cs => some ('\n', cs)
  | '\\' :: 't' :: cs => some ('\t', cs)
  | c :: cs => some (c, cs)

/-- A character between quotes can be told. -/
theorem unquoteChar?_quoteChar (c : Char) (cs : List Char) :
    unquoteChar? (quoteChar c ++ cs) = some (c, cs) := by
  unfold quoteChar
  split
  · rfl
  · rfl
  · rfl
  · rfl
  · rw [List.singleton_append]
    unfold unquoteChar?
    split <;> simp_all

/-- Quoting can be undone, up to the closing quote. -/
theorem quoted_inj (h : a.flatMap quoteChar ++ '\'' :: r = b.flatMap quoteChar ++ '\'' :: r') :
    a = b ∧ r = r' := by
  induction a generalizing b with
  | nil =>
      cases b with
      | nil => exact ⟨rfl, (List.cons.inj h).2⟩
      | cons d b =>
          have hread := congrArg unquoteChar? h
          rw [List.flatMap_cons, List.append_assoc, unquoteChar?_quoteChar] at hread
          exact nomatch hread
  | cons c a ih =>
      cases b with
      | nil =>
          have hread := congrArg unquoteChar? h
          rw [List.flatMap_cons, List.append_assoc, unquoteChar?_quoteChar] at hread
          exact nomatch hread
      | cons d b =>
          have hread := congrArg unquoteChar? h
          rw [List.flatMap_cons, List.append_assoc, List.flatMap_cons, List.append_assoc,
            unquoteChar?_quoteChar, unquoteChar?_quoteChar, Option.some_inj, Prod.mk.injEq] at hread
          obtain ⟨rfl, hread⟩ := hread
          obtain ⟨rfl, rfl⟩ := ih hread
          exact ⟨rfl, rfl⟩

/-! ### Lexemes -/

/-- The three forms of a token: without separators, the name of the empty list, and quoted. -/
inductive IsLexeme : List Char → Prop where
  | plain (cs : List Char) (hne : cs ≠ []) (h : ∀ c ∈ cs, c ∉ separators) : IsLexeme cs
  | nil : IsLexeme ['[', ']']
  | quoted (name : List Char) : IsLexeme ('\'' :: (name.flatMap quoteChar ++ ['\'']))

/-- A token without separators starts with no separator. -/
theorem ne_of_plain {d : Char} (hne : cs ≠ []) (hcs : ∀ c ∈ cs, c ∉ separators)
    (hd : d ∈ separators) : cs ++ r ≠ d :: r' := by
  intro h
  obtain ⟨c, cs, rfl⟩ := List.exists_cons_of_ne_nil hne
  obtain ⟨rfl, -⟩ := List.cons.inj h
  exact hcs c List.mem_cons_self hd

/-- **Where a token ends** can be told from the text. -/
theorem IsLexeme.append_inj (hcs : IsLexeme cs) (hds : IsLexeme ds)
    (hr : StartsWithin separators r) (hr' : StartsWithin separators r')
    (h : cs ++ r = ds ++ r') : cs = ds ∧ r = r' := by
  cases hcs with
  | plain _ hne hplain =>
      cases hds with
      | plain _ hne' hplain' => exact append_inj_of_separated hplain hplain' hr hr' h
      | nil => exact absurd h (ne_of_plain hne hplain (by decide))
      | quoted name => exact absurd h (ne_of_plain hne hplain (by decide))
  | nil =>
      cases hds with
      | plain _ hne' hplain' => exact absurd h.symm (ne_of_plain hne' hplain' (by decide))
      | nil => exact ⟨rfl, List.append_cancel_left h⟩
      | quoted name => exact nomatch (List.cons.inj h).1
  | quoted name =>
      cases hds with
      | plain _ hne' hplain' => exact absurd h.symm (ne_of_plain hne' hplain' (by decide))
      | nil => exact nomatch (List.cons.inj h).1
      | quoted name' =>
          have htail :
              name.flatMap quoteChar ++ '\'' :: r = name'.flatMap quoteChar ++ '\'' :: r' := by
            simpa using h
          obtain ⟨rfl, rfl⟩ := quoted_inj htail
          exact ⟨rfl, rfl⟩

/-! ### Names -/

/-- A bare name is special, starts with a letter or has symbol characters only. -/
theorem isBare_cases (h : isBare a = true) :
    a ∈ specialNames ∨
      (∃ c cs, a = c :: cs ∧ c.isLower = true ∧ ∀ d ∈ cs, d.isAlphanum = true ∨ d = '_') ∨
      a ≠ [] ∧ ∀ c ∈ a, c ∈ symbolCharacters := by
  unfold isBare at h
  rw [Bool.or_eq_true] at h
  rcases h with h | h
  · exact .inl (List.contains_iff_mem.1 h)
  · cases a with
    | nil => exact nomatch h
    | cons c cs =>
        refine .inr ?_
        by_cases hc : c.isLower = true
        · refine .inl ⟨c, cs, rfl, hc, ?_⟩
          simpa [hc] using h
        · refine .inr ⟨List.cons_ne_nil c cs, ?_⟩
          simp only [hc] at h
          simpa using (Bool.and_eq_true_iff.1 h).2

theorem not_mem_separators_of_isAlphanum (h : c.isAlphanum = true) : c ∉ separators := by
  have hall : ∀ e ∈ separators, e.isAlphanum = false := forall_mem_of_all (by decide)
  intro hc
  rw [hall c hc] at h
  exact nomatch h

theorem isLexeme_quoteName (a : List Char) : IsLexeme (quoteName a) := by
  rw [quoteName]
  split
  · rcases isBare_cases ‹_› with h | ⟨c, cs, rfl, hc, hcs⟩ | ⟨hne, h⟩
    · simp only [specialNames, List.mem_cons, List.not_mem_nil, or_false] at h
      rcases h with rfl | rfl | rfl | rfl
      · exact .nil
      · exact .plain _ (List.cons_ne_nil _ _) (forall_mem_of_all (by decide))
      · exact .plain _ (List.cons_ne_nil _ _) (forall_mem_of_all (by decide))
      · exact .plain _ (List.cons_ne_nil _ _) (forall_mem_of_all (by decide))
    · refine .plain _ (List.cons_ne_nil c cs) fun d hd => ?_
      rcases List.mem_cons.1 hd with rfl | hd
      · refine not_mem_separators_of_isAlphanum ?_
        show ((d.isUpper || d.isLower) || d.isDigit) = true
        rw [hc, Bool.or_true, Bool.true_or]
      · rcases hcs d hd with hd | rfl
        · exact not_mem_separators_of_isAlphanum hd
        · decide
    · have hall : ∀ e ∈ symbolCharacters, e ∉ separators := forall_mem_of_all (by decide)
      exact .plain a hne fun c hc => hall c (h c hc)
  · exact .quoted a

/-- A bare name does not start with a quote. -/
theorem quote_ne_of_isBare (h : isBare ('\'' :: a) = true) : False := by
  rcases isBare_cases h with h | ⟨c, cs, hcs, hc, -⟩ | ⟨-, h⟩
  · simp [specialNames] at h
  · obtain ⟨rfl, -⟩ := List.cons.inj hcs
    exact nomatch hc
  · exact absurd (h _ List.mem_cons_self) (by decide)

/-- **Different names are written differently.** -/
theorem quoteName_inj (h : quoteName a = quoteName b) : a = b := by
  rw [quoteName, quoteName] at h
  split at h <;> split at h
  · exact h
  · subst h
    exact (quote_ne_of_isBare ‹_›).elim
  · subst h
    exact (quote_ne_of_isBare ‹_›).elim
  · exact (quoted_inj (List.cons.inj h).2).1

/-- **A name is not written like a number**: if it starts with no letter, it has no digit. -/
theorem quoteName_ne_number {n : Number} (hn : n.IsFinite) : quoteName a ≠ n.text := by
  obtain ⟨c, cs, htext, hlower, hchar, e, he, hdigit⟩ := Number.exists_start hn
  rw [htext] at he ⊢
  intro h
  have hspecial : ∀ c ∈ specialNames.flatten, isDigit 10 c = false := forall_mem_of_all (by decide)
  have hsymbol : ∀ c ∈ symbolCharacters, isDigit 10 c = false := forall_mem_of_all (by decide)
  rw [quoteName] at h
  split at h
  · subst h
    rcases isBare_cases ‹_› with h | ⟨b, bs, hbs, hb, -⟩ | ⟨-, h⟩
    · rw [hspecial e (List.mem_flatten_of_mem h he)] at hdigit
      exact nomatch hdigit
    · obtain ⟨rfl, -⟩ := List.cons.inj hbs
      rw [hb] at hlower
      exact nomatch hlower
    · rw [hsymbol e (h e he)] at hdigit
      exact nomatch hdigit
  · obtain ⟨rfl, -⟩ := List.cons.inj h
    exact nomatch hchar

end Term

/-! ### Tokens -/

/-- A name or a number. -/
inductive Token where
  | name (a : String)
  | number (n : Number)

namespace Token

open Term

/-- How a token is written. -/
def text : Token → List Char
  | name a => quoteName a.toList
  | number n => n.text

/-- Not an infinity and not a NaN. -/
def IsFinite : Token → Prop
  | name _ => True
  | number n => n.IsFinite

variable {k l : Token} {r r' : List Char}

theorem isLexeme_text (h : k.IsFinite) : IsLexeme k.text := by
  cases k with
  | name a => exact isLexeme_quoteName a.toList
  | number n =>
      obtain ⟨c, cs, htext, -⟩ := Number.exists_start h
      have hmarks : ∀ e ∈ separators, Number.isNumberChar e = false :=
        forall_mem_of_all (by decide)
      refine .plain n.text (htext ▸ List.cons_ne_nil c cs) fun e he hmem => ?_
      have hchar := Number.isNumberChar_of_mem_text h he
      rw [hmarks e hmem] at hchar
      exact nomatch hchar

theorem text_inj (hk : k.IsFinite) (hl : l.IsFinite) (h : k.text = l.text) : k = l := by
  cases k with
  | name a =>
      cases l with
      | name b => rw [String.toList_inj.1 (quoteName_inj h)]
      | number n => exact absurd h (quoteName_ne_number hl)
  | number m =>
      cases l with
      | name b => exact absurd h.symm (quoteName_ne_number hk)
      | number n => rw [Number.text_inj hk hl h]

/-- **A token and what follows it can be told from the text**, if a separator follows or nothing. -/
theorem text_append_inj (hk : k.IsFinite) (hl : l.IsFinite)
    (hr : StartsWithin separators r) (hr' : StartsWithin separators r')
    (h : k.text ++ r = l.text ++ r') : k = l ∧ r = r' := by
  obtain ⟨htext, hrest⟩ := (isLexeme_text hk).append_inj (isLexeme_text hl) hr hr' h
  exact ⟨text_inj hk hl htext, hrest⟩

end Token

end LogicTerms
