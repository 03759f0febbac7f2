/-
**Printed terms are unambiguous.**

A ground term whose doubles are finite can be told from its text.  Its text starts with a token, or
with the bracket of a list, and from there on each part ends where a parenthesis, a bracket, a comma
or a bar says so; none of them can start a term.  So the text of a term is the beginning of a longer
text in one way only, which is what the induction proves: of terms in front of whatever may follow a
term, and of the rest of a list in front of its closing bracket.

Main definitions:

* `Term.IsFinite` — no infinity and no NaN occurs in the term;
* `Term.Headed` — a term that is not a list cell: its first token, and its arguments;
* `Term.Legible`, `Term.TailLegible` — the term can be told from a text that starts with its own.

Main results:

* `Term.Headed.text_eq`, `Term.tailText_cases` — the forms of texts;
* `Term.legible_and_tailLegible` — every ground and finite term can be told;
* `Term.text_unambiguous` — **different terms have different texts**.
-/

import LogicTerms.Proofs.Term.Sameness
import LogicTerms.Proofs.Term.Token

set_option relaxedAutoImplicit false
set_option autoImplicit false

namespace LogicTerms.Term

/-! ### Finite terms -/

mutual

/-- No infinity and no NaN occurs in the term. -/
def IsFinite : Term → Prop
  | num n => n.IsFinite
  | compound _ args => IsFiniteArgs args
  | _ => True

/-- No infinity and no NaN occurs in any of the terms. -/
def IsFiniteArgs : List Term → Prop
  | [] => True
  | t :: ts => IsFinite t ∧ IsFiniteArgs ts

end

theorem isFiniteArgs_iff {ts : List Term} : IsFiniteArgs ts ↔ ∀ t ∈ ts, t.IsFinite := by
  induction ts with
  | nil => simp [IsFiniteArgs]
  | cons t ts ih => rw [IsFiniteArgs, ih, List.forall_mem_cons]

/-- A ground and finite term. -/
def Definite (t : Term) : Prop := t.isGround = true ∧ t.IsFinite

theorem definite_compound_iff {f : String} {args : List Term} :
    (compound f args).Definite ↔ ∀ t ∈ args, t.Definite := by
  simp only [Definite, isGround, IsFinite, isGroundArgs_eq_all, List.all_eq_true, isFiniteArgs_iff,
    forall_and]

theorem definite_cons_iff {item rest : Term} :
    (cons item rest).Definite ↔ item.Definite ∧ rest.Definite := by
  simp [cons, definite_compound_iff]

/-! ### The forms of texts -/

/-- A term that is not a list cell: its first token, and its arguments if it has any. -/
inductive Headed : Term → Token → Option (List Term) → Prop where
  | atom (a : String) : Headed (atom a) (.name a) none
  | num (n : Number) : Headed (num n) (.number n) none
  | compound (f : String) (args : List Term) (h : ∀ item rest, compound f args ≠ cons item rest) :
      Headed (compound f args) (.name f) (some args)

/-- The text of arguments behind a functor. -/
def argumentsText : Option (List Term) → List Char
  | none => []
  | some args => '(' :: (argsText args ++ [')'])

variable {t u item rest : Term} {k l : Token} {as bs : Option (List Term)} {r r' : List Char}

theorem Headed.unique (ht : Headed t k as) (hu : Headed u k as) : t = u := by
  cases ht <;> cases hu <;> rfl

theorem Headed.ne_cons (h : Headed t k as) : t ≠ cons item rest := by
  cases h with
  | atom a => exact fun h => nomatch h
  | num n => exact fun h => nomatch h
  | compound f args h => exact h item rest

theorem Headed.isFinite (h : Headed t k as) (ht : t.Definite) : k.IsFinite := by
  cases h with
  | atom a => exact trivial
  | num n => exact ht.2
  | compound f args h => exact trivial

theorem Headed.definite (h : Headed t k as) (ht : t.Definite) :
    ∀ args ∈ as, ∀ u ∈ args, u.Definite := by
  cases h with
  | atom a => exact fun args h => nomatch h
  | num n => exact fun args h => nomatch h
  | compound f args h =>
      rintro _ ⟨⟩
      exact definite_compound_iff.1 ht

/-- A ground term has a first token or is a list cell. -/
theorem exists_headed (ht : t.Definite) :
    (∃ k as, Headed t k as) ∨ ∃ item rest, t = cons item rest := by
  cases t with
  | var v => exact nomatch ht.1
  | atom a => exact .inl ⟨_, _, .atom a⟩
  | num n => exact .inl ⟨_, _, .num n⟩
  | compound f args =>
      by_cases h : ∃ item rest, compound f args = cons item rest
      · exact .inr h
      · exact .inl ⟨_, _, .compound f args fun item rest heq => h ⟨item, rest, heq⟩⟩

theorem text_compound {f : String} {args : List Term}
    (h : ∀ item rest, compound f args ≠ cons item rest) :
    text (compound f args) = applied f (argsText args) ∧
      tailText (compound f args) = '|' :: applied f (argsText args) := by
  have hcell : ∀ item rest, (f == listFunctor) = true → args ≠ [item, rest] := by
    intro item rest hf hargs
    exact h item rest (by rw [hargs, beq_iff_eq.1 hf, cons])
  constructor
  · rw [text]
    exact hcell
  · rw [tailText]
    exact hcell

theorem Headed.text_eq (h : Headed t k as) : t.text = k.text ++ argumentsText as := by
  cases h with
  | atom a => exact (List.append_nil _).symm
  | num n => exact (List.append_nil _).symm
  | compound f args h => exact (text_compound h).1

theorem Headed.tailText_eq (h : Headed t k as) (hnil : t ≠ nil) : t.tailText = '|' :: t.text := by
  cases h with
  | atom a => exact if_neg fun ha => hnil (congrArg Term.atom ha)
  | num n => rfl
  | compound f args h => rw [(text_compound h).1, (text_compound h).2]

theorem tailText_cons : tailText (cons item rest) = ',' :: (text item ++ tailText rest) := rfl

/-- The rest of a list is nothing, more items or a tail behind a bar. -/
theorem tailText_cases (ht : t.Definite) :
    (t = nil ∧ t.tailText = []) ∨ (∃ item rest, t = cons item rest) ∨
      ((∀ item rest, t ≠ cons item rest) ∧ t.tailText = '|' :: t.text) := by
  rcases exists_headed ht with ⟨k, as, h⟩ | hcell
  · by_cases hnil : t = nil
    · subst hnil
      exact .inl ⟨rfl, rfl⟩
    · exact .inr (.inr ⟨fun _ _ => h.ne_cons, h.tailText_eq hnil⟩)
  · exact .inr (.inl hcell)

/-! ### What may follow a term -/

/-- The characters that may follow a term, none of which starts one. -/
def closers : List Char := [')', ']', ',', '|']

theorem closers_subset_separators : ∀ c ∈ closers, c ∈ separators := forall_mem_of_all (by decide)

/-- Whatever may follow a term ends its last token. -/
theorem startsWithin_separators {cs : List Char} (h : StartsWithin closers cs) :
    StartsWithin separators cs :=
  fun c hc => closers_subset_separators c (h c hc)

/-- A token starts with none of these characters, and not like a list. -/
theorem IsLexeme.exists_cons {cs : List Char} (h : IsLexeme cs) :
    ∃ c rest, cs = c :: rest ∧ c ∉ closers ∧ (c = '[' → rest = [']']) := by
  cases h with
  | plain _ hne h =>
      obtain ⟨c, cs, rfl⟩ := List.exists_cons_of_ne_nil hne
      have hc : c ∉ separators := h c List.mem_cons_self
      refine ⟨c, cs, rfl, fun hmem => hc (closers_subset_separators c hmem), ?_⟩
      rintro rfl
      exact absurd (by decide) hc
  | nil => exact ⟨'[', [']'], rfl, by decide, fun _ => rfl⟩
  | quoted name => exact ⟨'\'', _, rfl, by decide, fun h => nomatch h⟩

theorem exists_text_cons (ht : t.Definite) : ∃ c cs, t.text = c :: cs ∧ c ∉ closers := by
  rcases exists_headed ht with ⟨k, as, h⟩ | ⟨item, rest, rfl⟩
  · obtain ⟨c, cs, htext, hc, -⟩ := (Token.isLexeme_text (h.isFinite ht)).exists_cons
    exact ⟨c, cs ++ argumentsText as, by rw [h.text_eq, htext, List.cons_append], hc⟩
  · exact ⟨'[', _, text_cons item rest, by decide⟩

/-- A list is not written like anything else. -/
theorem text_cons_ne (h : Headed u k as) (hu : u.Definite) (hitem : item.Definite) :
    (cons item rest).text ++ r ≠ u.text ++ r' := by
  obtain ⟨c, cs, htext, hc⟩ := exists_text_cons hitem
  obtain ⟨d, ds, hktext, -, hd⟩ := (Token.isLexeme_text (h.isFinite hu)).exists_cons
  rw [text_cons, htext, h.text_eq, hktext]
  intro heq
  obtain ⟨hbracket, htail⟩ := List.cons.inj heq
  rw [hd hbracket.symm] at htail
  obtain ⟨rfl, -⟩ := List.cons.inj htail
  exact hc (by decide)

/-! ### Terms in longer texts -/

/-- The term can be told from a text that starts with its own. -/
def Legible (t : Term) : Prop :=
  ∀ u r r', u.Definite → StartsWithin closers r → StartsWithin closers r' →
    t.text ++ r = u.text ++ r' → t = u ∧ r = r'

/-- The rest of a list can be told from a text that starts with its own and a bracket. -/
def TailLegible (t : Term) : Prop :=
  ∀ u r r', u.Definite → t.tailText ++ ']' :: r = u.tailText ++ ']' :: r' → t = u ∧ r = r'

/-- The text of the arguments behind the first. -/
def restText : List Term → List Char
  | [] => []
  | t :: ts => ',' :: argsText (t :: ts)

theorem argsText_cons (t : Term) (ts : List Term) :
    argsText (t :: ts) = t.text ++ restText ts := by
  cases ts with
  | nil => exact (List.append_nil _).symm
  | cons u us => rfl

theorem startsWithin_restText (ts : List Term) :
    StartsWithin closers (restText ts ++ ')' :: r) := by
  cases ts with
  | nil => exact startsWithin_cons (by decide)
  | cons t ts => exact startsWithin_cons (by decide)

/-- Terms between commas and in front of a parenthesis can be told. -/
theorem argsText_inj {ts us : List Term} (h : ∀ t ∈ ts, t.Definite ∧ t.Legible)
    (hus : ∀ u ∈ us, u.Definite)
    (heq : argsText ts ++ ')' :: r = argsText us ++ ')' :: r') : ts = us ∧ r = r' := by
  -- an argument does not start with the parenthesis that closes the arguments
  have hstart : ∀ (t : Term) (cs ds : List Char), t.Definite → t.text ++ cs ≠ ')' :: ds := by
    intro t cs ds ht heq
    obtain ⟨c, text, htext, hc⟩ := exists_text_cons ht
    rw [htext] at heq
    obtain ⟨rfl, -⟩ := List.cons.inj heq
    exact hc (by decide)
  induction ts generalizing us with
  | nil =>
      cases us with
      | nil => exact ⟨rfl, (List.cons.inj heq).2⟩
      | cons u us =>
          rw [argsText_cons, List.append_assoc] at heq
          exact absurd heq.symm (hstart u _ _ (hus u List.mem_cons_self))
  | cons t ts ih =>
      obtain ⟨ht, hts⟩ := List.forall_mem_cons.1 h
      rw [argsText_cons, List.append_assoc] at heq
      cases us with
      | nil => exact absurd heq (hstart t _ _ ht.1)
      | cons u us =>
          obtain ⟨hu, hus'⟩ := List.forall_mem_cons.1 hus
          rw [argsText_cons, List.append_assoc] at heq
          obtain ⟨rfl, hrest⟩ :=
            ht.2 u _ _ hu (startsWithin_restText ts) (startsWithin_restText us) heq
          cases ts with
          | nil =>
              cases us with
              | nil => exact ⟨rfl, (List.cons.inj hrest).2⟩
              | cons u' us => exact nomatch (List.cons.inj hrest).1
          | cons t' ts =>
              cases us with
              | nil => exact nomatch (List.cons.inj hrest).1
              | cons u' us =>
                  obtain ⟨hargs, hr⟩ := ih hts hus' (List.cons.inj hrest).2
                  exact ⟨by rw [hargs], hr⟩

theorem separated_argumentsText (as : Option (List Term)) (h : StartsWithin closers r) :
    StartsWithin separators (argumentsText as ++ r) := by
  cases as with
  | none => exact startsWithin_separators h
  | some args => exact startsWithin_cons (by decide)

/-- The arguments behind a token can be told, and whether there are any. -/
theorem argumentsText_inj (has : ∀ args ∈ as, ∀ t ∈ args, t.Definite ∧ t.Legible)
    (hbs : ∀ args ∈ bs, ∀ t ∈ args, t.Definite) (hr : StartsWithin closers r)
    (hr' : StartsWithin closers r')
    (heq : argumentsText as ++ r = argumentsText bs ++ r') : as = bs ∧ r = r' := by
  have hopen : ∀ cs, ¬ StartsWithin closers ('(' :: cs) :=
    fun cs h => absurd (h '(' rfl) (by decide)
  cases as with
  | none =>
      cases bs with
      | none => exact ⟨rfl, heq⟩
      | some us =>
          have hcons : r = '(' :: (argsText us ++ [')'] ++ r') := heq
          rw [hcons] at hr
          exact absurd hr (hopen _)
  | some ts =>
      cases bs with
      | none =>
          have hcons : r' = '(' :: (argsText ts ++ [')'] ++ r) := heq.symm
          rw [hcons] at hr'
          exact absurd hr' (hopen _)
      | some us =>
          obtain ⟨rfl, rfl⟩ := argsText_inj (has ts rfl) (hbs us rfl)
            (by simpa [argumentsText] using heq)
          exact ⟨rfl, rfl⟩

theorem legible_of_headed (h : Headed t k as) (ht : t.Definite)
    (hargs : ∀ args ∈ as, ∀ t ∈ args, t.Definite ∧ t.Legible) : t.Legible := by
  intro u r r' hu hr hr' heq
  rcases exists_headed hu with ⟨l, bs, h'⟩ | ⟨item, rest, rfl⟩
  · rw [h.text_eq, h'.text_eq, List.append_assoc, List.append_assoc] at heq
    obtain ⟨rfl, hrest⟩ := Token.text_append_inj (h.isFinite ht) (h'.isFinite hu)
      (separated_argumentsText as hr) (separated_argumentsText bs hr') heq
    obtain ⟨rfl, rfl⟩ := argumentsText_inj hargs (h'.definite hu) hr hr' hrest
    exact ⟨h.unique h', rfl⟩
  · exact absurd heq.symm (text_cons_ne h ht (definite_cons_iff.1 hu).1)

/-- Other than a list cell, the rest of a list is a term behind a bar or nothing. -/
theorem Legible.tailLegible (ht : t.Definite) (hcell : ∀ item rest, t ≠ cons item rest)
    (h : t.Legible) : t.TailLegible := by
  intro u r r' hu heq
  rcases tailText_cases ht with ⟨rfl, htext⟩ | ⟨item, rest, rfl⟩ | ⟨-, htext⟩
  · rw [htext] at heq
    rcases tailText_cases hu with ⟨rfl, hutext⟩ | ⟨item, rest, rfl⟩ | ⟨-, hutext⟩
    · exact ⟨rfl, (List.cons.inj heq).2⟩
    · exact nomatch (List.cons.inj heq).1
    · rw [hutext] at heq
      exact nomatch (List.cons.inj heq).1
  · exact absurd rfl (hcell item rest)
  · rw [htext] at heq
    rcases tailText_cases hu with ⟨rfl, hutext⟩ | ⟨item, rest, rfl⟩ | ⟨-, hutext⟩
    · exact nomatch (List.cons.inj heq).1
    · exact nomatch (List.cons.inj heq).1
    · rw [hutext] at heq
      obtain ⟨rfl, hr⟩ := h u _ _ hu (startsWithin_cons (by decide)) (startsWithin_cons (by decide))
        (List.cons.inj heq).2
      exact ⟨rfl, (List.cons.inj hr).2⟩

theorem startsWithin_tailText (ht : t.Definite) :
    StartsWithin closers (t.tailText ++ ']' :: r) := by
  rcases tailText_cases ht with ⟨rfl, htext⟩ | ⟨item, rest, rfl⟩ | ⟨-, htext⟩
  · exact startsWithin_cons (by decide)
  · exact startsWithin_cons (by decide)
  · rw [htext]
    exact startsWithin_cons (by decide)

/-- An item and the rest of its list can be told one after the other. -/
theorem cell_inj {item' rest' : Term} (hitem : item.Legible) (hrest : rest.TailLegible)
    (h : (cons item rest).Definite) (h' : (cons item' rest').Definite)
    (heq : item.text ++ (rest.tailText ++ ']' :: r) =
      item'.text ++ (rest'.tailText ++ ']' :: r')) :
    cons item rest = cons item' rest' ∧ r = r' := by
  obtain ⟨-, hrestDefinite⟩ := definite_cons_iff.1 h
  obtain ⟨hitem', hrest'⟩ := definite_cons_iff.1 h'
  obtain ⟨rfl, htail⟩ :=
    hitem item' _ _ hitem' (startsWithin_tailText hrestDefinite) (startsWithin_tailText hrest') heq
  obtain ⟨rfl, hr⟩ := hrest rest' _ _ hrest' htail
  exact ⟨rfl, hr⟩

theorem legible_cons (h : (cons item rest).Definite) (hitem : item.Legible)
    (hrest : rest.TailLegible) : (cons item rest).Legible := by
  intro u r r' hu hr hr' heq
  rcases exists_headed hu with ⟨l, bs, h'⟩ | ⟨item', rest', rfl⟩
  · exact absurd heq (text_cons_ne h' hu (definite_cons_iff.1 h).1)
  · rw [text_cons, text_cons] at heq
    exact cell_inj hitem hrest h hu (by simpa using heq)

theorem tailLegible_cons (h : (cons item rest).Definite) (hitem : item.Legible)
    (hrest : rest.TailLegible) : (cons item rest).TailLegible := by
  intro u r r' hu heq
  rw [tailText_cons] at heq
  rcases tailText_cases hu with ⟨rfl, hutext⟩ | ⟨item', rest', rfl⟩ | ⟨-, hutext⟩
  · exact nomatch (List.cons.inj heq).1
  · rw [tailText_cons] at heq
    exact cell_inj hitem hrest h hu (by simpa using heq)
  · rw [hutext] at heq
    exact nomatch (List.cons.inj heq).1

/-- **Every ground and finite term can be told** from a longer text. -/
theorem legible_and_tailLegible (ht : t.Definite) : t.Legible ∧ t.TailLegible := by
  induction t using Term.induct with
  | var v => exact nomatch ht.1
  | atom a =>
      have h := legible_of_headed (.atom a) ht (by simp)
      exact ⟨h, h.tailLegible ht fun _ _ h => nomatch h⟩
  | num n =>
      have h := legible_of_headed (.num n) ht (by simp)
      exact ⟨h, h.tailLegible ht fun _ _ h => nomatch h⟩
  | compound f args ih =>
      have hargs := definite_compound_iff.1 ht
      rcases exists_headed ht with ⟨k, as, hheaded⟩ | ⟨item, rest, hcell⟩
      · have h : Legible (compound f args) := by
          refine legible_of_headed hheaded ht fun ts hts t hmem => ?_
          cases hheaded
          cases hts
          exact ⟨hargs t hmem, (ih t hmem (hargs t hmem)).1⟩
        exact ⟨h, h.tailLegible ht fun _ _ => hheaded.ne_cons⟩
      · cases hcell
        have hitem := ih item List.mem_cons_self (hargs item List.mem_cons_self)
        have hrest := ih rest (by simp) (hargs rest (by simp))
        exact ⟨legible_cons ht hitem.1 hrest.2, tailLegible_cons ht hitem.1 hrest.2⟩

theorem IsFinite.ordered (h : t.IsFinite) : t.Ordered := by
  induction t using Term.induct with
  | var v => exact trivial
  | atom a => exact trivial
  | num n =>
      cases n with
      | int i => exact trivial
      | float x =>
          have hlt : x.magnitude < Binary64.infinityMagnitude := of_decide_eq_true h
          exact decide_eq_false (by omega)
      | ratio q => exact trivial
  | compound f args ih =>
      rw [IsFinite, isFiniteArgs_iff] at h
      exact ordered_compound_iff.2 fun u hu => ih u hu (h u hu)

/-- **Different terms have different texts**: ground terms whose doubles are all finite are the same
if they are written alike. -/
theorem text_unambiguous (t u : Term) (ht : t.isGround = true) (hu : u.isGround = true)
    (htfinite : t.IsFinite) (hufinite : u.IsFinite) (h : t.text = u.text) :
    t = u ∧ t.equal u = true := by
  obtain ⟨hlegible, -⟩ := legible_and_tailLegible ⟨ht, htfinite⟩
  obtain ⟨rfl, -⟩ :=
    hlegible u [] [] ⟨hu, hufinite⟩ (startsWithin_nil _) (startsWithin_nil _) (by rw [h])
  exact ⟨rfl, equal_iff.2 ⟨Same.refl t, htfinite.ordered⟩⟩

/-- A partial list with a quoted name, a negative zero and a compound without arguments. -/
theorem text_unambiguous_partial_list :
    listWithTail [atom "don't", ofBinary64 (.zero true)] (compound "f" []) =
        cons (atom "don't") (cons (ofBinary64 (.zero true)) (compound "f" [])) ∧
      (listWithTail [atom "don't", ofBinary64 (.zero true)] (compound "f" [])).equal
        (cons (atom "don't") (cons (ofBinary64 (.zero true)) (compound "f" []))) = true :=
  text_unambiguous _ _ rfl rfl ⟨trivial, ⟨rfl, trivial, trivial⟩, trivial⟩
    ⟨trivial, ⟨rfl, trivial, trivial⟩, trivial⟩ rfl

end LogicTerms.Term
