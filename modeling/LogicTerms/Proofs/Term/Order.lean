/-
**The standard order is a total order.**

The order of compounds looks at the arguments one after the other and recurses into each of them,
so transitivity, proved directly, would have to be carried through two nested recursions.  It is
simpler to write a term down as a list of *tokens*: the heads of its subterms from left to right,
where that of a compound tells the number of arguments and the functor.  Such lists need no
brackets, and comparing terms is comparing their lists token by token.  So the order of terms is a
lexicographic order, and those are known to be total if the order of the members is.

Main definitions:

* `Term.Token`, `Term.Token.compare` — the heads of terms, and their order;
* `Term.tokens` — a term as a list of heads.

Main results:

* `Term.compareLex_tokens` — **terms compare as their tokens**, whatever follows;
* `Term.compare_eq_iff` — terms in one place of the order are the same;
* `Term.compare_total_order` — the standard order is a total order.
-/

import LogicTerms.Proofs.Number.Order
import LogicTerms.Proofs.Unification.Runs

set_option relaxedAutoImplicit false
set_option autoImplicit false

namespace LogicTerms

namespace Term

/-! ### Tokens -/

/-- The head of a term. -/
inductive Token where
  /-- The variable of an id. -/
  | var (id : UInt64)
  /-- A number. -/
  | num (value : Number)
  /-- An atom. -/
  | atom (name : String)
  /-- A compound with so many arguments. -/
  | compound (arity : ℕ) (functor : String)

namespace Token

/-- The place of a token's class among the classes. -/
def classRank : Token → ℕ
  | var _ => 0
  | num _ => 1
  | atom _ => 2
  | compound _ _ => 3

/-- The order of tokens. -/
def compare : Token → Token → Ordering
  | var i, var j => Ord.compare i j
  | num m, num n => compareNumbers m n
  | atom a, atom b => Ord.compare a b
  | compound k f, compound l g => (Ord.compare k l).then (Ord.compare f g)
  | s, t => Ord.compare s.classRank t.classRank

/-- Tokens of different classes are in the order of the classes. -/
theorem compare_of_classRank_ne {s t : Token} (h : s.classRank ≠ t.classRank) :
    s.compare t = Ord.compare s.classRank t.classRank := by
  cases s <;> cases t <;> first | rfl | exact absurd rfl h

theorem compare_compound (k l : ℕ) (f g : String) :
    (compound k f).compare (compound l g) = Ord.compare (toLex (k, f)) (toLex (l, g)) := rfl

theorem compare_swap (s t : Token) : s.compare t = (t.compare s).swap := by
  by_cases h : s.classRank = t.classRank
  · cases s with
    | var i =>
        cases t with
        | var j => exact Std.OrientedOrd.eq_swap
        | _ => exact nomatch h
    | num m =>
        cases t with
        | num n =>
            change compareNumbers m n = (compareNumbers n m).swap
            exact Std.OrientedCmp.eq_swap
        | _ => exact nomatch h
    | atom a =>
        cases t with
        | atom b => exact Std.OrientedOrd.eq_swap
        | _ => exact nomatch h
    | compound k f =>
        cases t with
        | compound l g =>
            rw [compare_compound, compare_compound]
            exact Std.OrientedOrd.eq_swap
        | _ => exact nomatch h
  · rw [compare_of_classRank_ne h, compare_of_classRank_ne (Ne.symm h)]
    exact Std.OrientedOrd.eq_swap

theorem classRank_le_of_isLE {s t : Token} (h : (s.compare t).isLE = true) :
    s.classRank ≤ t.classRank := by
  by_cases hr : s.classRank = t.classRank
  · exact hr.le
  · rw [compare_of_classRank_ne hr] at h
    exact Nat.isLE_compare.1 h

/-- Comparing tokens is transitive: among tokens of one class since comparing what they hold is. -/
theorem isLE_trans {s t u : Token} (h : (s.compare t).isLE = true)
    (h' : (t.compare u).isLE = true) : (s.compare u).isLE = true := by
  have hst := classRank_le_of_isLE h
  have htu := classRank_le_of_isLE h'
  -- if the first and the last are of one class, so is the one between them
  by_cases hr : s.classRank = u.classRank
  · have ht : t.classRank = s.classRank := by omega
    cases s with
    | var i =>
        cases t with
        | var j =>
            cases u with
            | var k =>
                exact Std.TransOrd.isLE_trans h h'
            | _ => exact nomatch hr
        | _ => exact nomatch ht
    | num m =>
        cases t with
        | num n =>
            cases u with
            | num k =>
                change (compareNumbers m k).isLE = true
                exact Std.TransCmp.isLE_trans h h'
            | _ => exact nomatch hr
        | _ => exact nomatch ht
    | atom a =>
        cases t with
        | atom b =>
            cases u with
            | atom c =>
                exact Std.TransOrd.isLE_trans h h'
            | _ => exact nomatch hr
        | _ => exact nomatch ht
    | compound k f =>
        cases t with
        | compound l g =>
            cases u with
            | compound p e =>
                rw [compare_compound] at h h' ⊢
                exact Std.TransOrd.isLE_trans h h'
            | _ => exact nomatch hr
        | _ => exact nomatch ht
  · rw [compare_of_classRank_ne hr, Nat.isLE_compare]
    omega

instance : Std.TransCmp compare where
  eq_swap := compare_swap _ _
  isLE_trans := isLE_trans

end Token

mutual

/-- The heads of the subterms of a term, from left to right. -/
def tokens : Term → List Token
  | var v => [.var v.id]
  | num n => [.num n]
  | atom a => [.atom a]
  | compound f args => .compound args.length f :: tokensArgs args

/-- The heads of the subterms of the terms of a list. -/
def tokensArgs : List Term → List Token
  | [] => []
  | t :: ts => tokens t ++ tokensArgs ts

end

/-- Arguments compare as their tokens if each of them does and they are equally many. -/
theorem compareLex_tokensArgs {as bs : List Term} (hlen : as.length = bs.length)
    (h : ∀ a ∈ as, ∀ b s s', List.compareLex Token.compare (a.tokens ++ s) (b.tokens ++ s') =
      (a.compare b).then (List.compareLex Token.compare s s')) (s s' : List Token) :
    List.compareLex Token.compare (tokensArgs as ++ s) (tokensArgs bs ++ s') =
      (compareArgs as bs).then (List.compareLex Token.compare s s') := by
  induction as generalizing bs with
  | nil =>
      cases bs with
      | nil => rfl
      | cons b bs => exact nomatch hlen
  | cons a as ih =>
      cases bs with
      | nil => exact nomatch hlen
      | cons b bs =>
          rw [tokensArgs, tokensArgs, List.append_assoc, List.append_assoc,
            h a List.mem_cons_self, compareArgs,
            ih (Nat.succ.inj hlen) fun c hc => h c (List.mem_cons_of_mem a hc),
            Ordering.then_assoc]

/-- **Terms compare as their tokens**, and if these agree, as the tokens that follow. -/
theorem compareLex_tokens (a b : Term) (s s' : List Token) :
    List.compareLex Token.compare (a.tokens ++ s) (b.tokens ++ s') =
      (a.compare b).then (List.compareLex Token.compare s s') := by
  induction a using induct generalizing b s s' with
  | var v =>
      cases b with
      | var w => exact List.compareLex_cons_cons
      | _ => rfl
  | atom a =>
      cases b with
      | atom b => exact List.compareLex_cons_cons
      | _ => rfl
  | num m =>
      cases b with
      | num n => exact List.compareLex_cons_cons
      | _ => rfl
  | compound f as ih =>
      cases b with
      | compound g bs =>
          rw [tokens, tokens, List.cons_append, List.cons_append, List.compareLex_cons_cons,
            Token.compare, compare]
          -- arguments are only reached if they are equally many
          obtain hlt | hlen | hgt := Nat.lt_trichotomy as.length bs.length
          · rw [Nat.compare_eq_lt.2 hlt]
            rfl
          · rw [compareLex_tokensArgs hlen ih, Ordering.then_assoc, Ordering.then_assoc,
              Ordering.then_assoc]
          · rw [Nat.compare_eq_gt.2 hgt]
            rfl
      | _ => rfl

theorem compare_eq_compareLex_tokens (a b : Term) :
    a.compare b = List.compareLex Token.compare a.tokens b.tokens := by
  have h := compareLex_tokens a b [] []
  rw [List.append_nil, List.append_nil, List.compareLex_nil_nil, Ordering.then_eq] at h
  exact h.symm

instance : Std.TransCmp compare where
  eq_swap {a b} := by
    rw [compare_eq_compareLex_tokens, compare_eq_compareLex_tokens]
    exact Std.OrientedCmp.eq_swap
  isLE_trans {a b c} hab hbc := by
    rw [compare_eq_compareLex_tokens] at hab hbc ⊢
    exact Std.TransCmp.isLE_trans hab hbc

/-! ### Equal places -/

theorem compareArgs_eq_iff {as bs : List Term} (hlen : as.length = bs.length)
    (h : ∀ a ∈ as, ∀ b, a.compare b = .eq ↔ a.Same b) :
    compareArgs as bs = .eq ↔ List.Forall₂ Same as bs := by
  induction as generalizing bs with
  | nil =>
      cases bs with
      | nil => exact iff_of_true rfl .nil
      | cons b bs => exact nomatch hlen
  | cons a as ih =>
      cases bs with
      | nil => exact nomatch hlen
      | cons b bs =>
          rw [compareArgs, Ordering.then_eq_eq, List.forall₂_cons, h a List.mem_cons_self,
            ih (Nat.succ.inj hlen) fun c hc => h c (List.mem_cons_of_mem a hc)]

/-- **Terms in one place of the standard order are the same.** -/
theorem compare_eq_iff {a b : Term} : a.compare b = .eq ↔ a.Same b := by
  induction a using induct generalizing b with
  | var v =>
      cases b with
      | var w => rw [compare, Std.LawfulEqOrd.compare_eq_iff_eq, same_var_iff]
      | _ => exact iff_of_false nofun nofun
  | atom a =>
      cases b with
      | atom b => rw [compare, Std.LawfulEqOrd.compare_eq_iff_eq, same_atom_iff]
      | _ => exact iff_of_false nofun nofun
  | num m =>
      cases b with
      | num n => rw [compare, compareNumbers_eq_iff, same_num_iff]
      | _ => exact iff_of_false nofun nofun
  | compound f as ih =>
      cases b with
      | compound g bs =>
          rw [compare, Ordering.then_eq_eq, Ordering.then_eq_eq, Std.LawfulEqOrd.compare_eq_iff_eq,
            Std.LawfulEqOrd.compare_eq_iff_eq, same_compound_iff]
          constructor
          · rintro ⟨⟨hlen, hf⟩, hargs⟩
            exact ⟨hf, (compareArgs_eq_iff hlen fun a ha b => ih a ha).1 hargs⟩
          · rintro ⟨hf, hargs⟩
            have hlen := hargs.length_eq
            exact ⟨⟨hlen, hf⟩, (compareArgs_eq_iff hlen fun a ha b => ih a ha).2 hargs⟩
      | _ => exact iff_of_false nofun nofun

end Term

/-! ### A total order -/

/-- Two numbers are unified if they are equal. -/
theorem Unification.exists_unify_num_iff {env : Bindings} {m n : Number} :
    (∃ r env', Unification.unify env (.num m) (.num n) = some r ∧ r.outcome = some env') ↔
      m.equal n = true := by
  obtain ⟨d, hd⟩ : ∃ d, Unification.depthBound env (.num m) (.num n) = d + 1 :=
    Nat.exists_eq_succ_of_ne_zero (Nat.pow_pos (Nat.succ_pos _)).ne'
  rw [Unification.unify, hd]
  constructor
  · rintro ⟨r, env', h, ho⟩
    by_contra hne
    have hclash : ¬ (Term.num m).SameHead (.num n) := hne
    obtain ⟨e, -, hr⟩ := Unification.unifyWithin_clash d env rfl rfl hclash
    rw [hr] at h
    cases h
    exact nomatch ho
  · intro h
    exact ⟨_, env, Unification.unifyWithin_nums d h, rfl⟩

namespace Term

/-- **The standard order is a total order.**  It turns around with its sides, chains of terms that
are not greater compose, and so do chains of terms that are less; terms in one place are the same,
so that they are equal if no NaN occurs in them.  Ordered numbers in one place are of one kind and
of one value, and these are the ones that can be unified. -/
theorem compare_total_order :
    (∀ a b : Term, a.compare b = (b.compare a).swap) ∧
      (∀ a b c : Term, (a.compare b).isLE = true → (b.compare c).isLE = true →
        (a.compare c).isLE = true) ∧
      (∀ a b c : Term, a.compare b = .lt → b.compare c = .lt → a.compare c = .lt) ∧
      (∀ a b : Term, a.compare b = .eq ↔ a.Same b) ∧
      (∀ a b : Term, a.Ordered → b.Ordered → (a.compare b = .eq ↔ a.equal b = true)) ∧
      ∀ m n : Number, m.IsOrdered → n.IsOrdered →
        ((num m).compare (num n) = .eq ↔
          (num m).kind = (num n).kind ∧ m.sameValue n = true) ∧
        ∀ env, (num m).compare (num n) = .eq ↔
          ∃ r env', Unification.unify env (num m) (num n) = some r ∧ r.outcome = some env' := by
  refine ⟨fun a b => Std.OrientedCmp.eq_swap, fun a b c => Std.TransCmp.isLE_trans,
    fun a b c => Std.TransCmp.lt_trans, fun a b => compare_eq_iff, ?_, ?_⟩
  · intro a b ha _
    rw [compare_eq_iff, equal_iff_same ha]
  · intro m n hm hn
    refine ⟨compareNumbers_eq_iff_sameValue hm hn, fun env => ?_⟩
    rw [Unification.exists_unify_num_iff, Number.equal_eq_true_iff, and_iff_left hm]
    exact compareNumbers_eq_iff

/-- Numbers of one value and different kinds, a compound without arguments, and the two zeros. -/
theorem compare_total_order_ties :
    (num (.float (.ofInt 2))).compare (num (.int 2)) = .lt ∧
      (num (.int 2)).compare (.compound "f" []) = .lt ∧
      (num (.float (.ofInt 2))).compare (.compound "f" []) = .lt ∧
      (num (.float (.zero true))).compare (num (.float (.zero false))) = .eq ∧
      (num (.float (.zero true))).equal (num (.float (.zero false))) = true ∧
      ∃ r env', Unification.unify .empty (num (.float (.zero true)))
        (num (.float (.zero false))) = some r ∧ r.outcome = some env' := by
  obtain ⟨-, -, hlt, -, hequal, hnum⟩ := compare_total_order
  have h₁ : (num (.float (.ofInt 2))).compare (num (.int 2)) = .lt := by decide +kernel
  have h₂ : (num (.int 2)).compare (.compound "f" []) = .lt := rfl
  have h₃ : (num (.float (.zero true))).compare (num (.float (.zero false))) = .eq := by
    decide +kernel
  have hzero : ∀ s, (Number.float (.zero s)).IsOrdered := fun s => rfl
  have h₄ := hequal (num (.float (.zero true))) (num (.float (.zero false))) (hzero true)
    (hzero false)
  have h₅ := (hnum (.float (.zero true)) (.float (.zero false)) (hzero true) (hzero false)).2
  exact ⟨h₁, h₂, hlt _ _ _ h₁ h₂, h₃, h₄.1 h₃, (h₅ .empty).1 h₃⟩

end Term

end LogicTerms
