/-
**What an expansion leaves.**

An expansion has the same tree as its term, under every solution of the bindings.  Not all bound
variables are gone from it, though: one that is met again while its own value is being expanded
stays where it is.  This is so for a good reason only.  All variables whose values are being expanded
around a place lead to every variable that occurs at the place, so a variable that is met inside its
own expansion leads to itself, and a variable that is met twice side by side is expanded twice.

So without a cycle an expansion leaves unbound variables alone.  Then expanding it again changes
nothing, and it is ground exactly if the term leads to no unbound variable.

Main results:

* `Bindings.Expands.residue` — the variables that are left are unbound or lead to themselves;
* `Bindings.find?_eq_none_of_mem_expand` — without a cycle they are unbound;
* `Bindings.isGround_expand_iff` — when an expansion is ground;
* `Bindings.expand_residue` — **expansions keep the tree and leave nothing but cycles**.
-/

import LogicTerms.Proofs.Bindings.Expansion
import LogicTerms.Proofs.Bindings.Occurrence
import LogicTerms.Proofs.Bindings.Refinement
import LogicTerms.Proofs.Bindings.Solutions

set_option relaxedAutoImplicit false
set_option autoImplicit false

namespace LogicTerms.Bindings

open Relation

variable {env : Bindings} {t u : Term} {i : UInt64}

/-! ### Variables that are left -/

/-- What becomes of a compound has its variables from what becomes of the arguments. -/
theorem exists_zip_of_mentions {f : String} {as bs : List Term} (hlen : as.length = bs.length)
    (h : (Term.compound f bs).Mentions i) : ∃ p ∈ as.zip bs, p.1 ∈ as ∧ p.2.Mentions i := by
  obtain ⟨b, hb, hi⟩ := Term.mentions_compound_iff.1 h
  rw [← List.map_snd_zip hlen.ge] at hb
  obtain ⟨p, hp, rfl⟩ := List.mem_map.1 hb
  exact ⟨p, hp, (List.of_mem_zip hp).1, hi⟩

/-- **A variable that is left is unbound, or leads to itself**, if the variables that are being
expanded lead to those of the term. -/
theorem Expands.residue {within : List UInt64} (h : env.Expands within t u)
    (hw : ∀ j ∈ within, ∀ i, t.Mentions i → TransGen env.Refers j i) (hi : u.Mentions i) :
    env.values.find? i = none ∨ TransGen env.Refers i i := by
  induction h with
  | @inside within v hv =>
      obtain rfl := Term.mentions_var_iff.1 hi
      exact .inr (hw _ hv _ (Term.mentions_var_iff.2 rfl))
  | @unbound within n v w _ _ hn =>
      obtain rfl := Term.mentions_var_iff.1 hi
      exact .inl hn
  | @value within n v t u _ hf ht _ ih =>
      -- the variable leads to those of its value, and so do all that lead to the variable
      have hv : ∀ k, t.Mentions k → TransGen env.Refers v.id k := by
        intro k hk
        refine hf.refers hk ?_
        rintro rfl
        exact nomatch ht
      refine ih (fun j hj k hk => ?_) hi
      obtain rfl | hj := List.mem_cons.1 hj
      · exact hv k hk
      · exact (hw j hj v.id (Term.mentions_var_iff.2 rfl)).trans (hv k hk)
  | atom a => exact absurd hi (Term.not_mentions_of_isGround rfl)
  | num n => exact absurd hi (Term.not_mentions_of_isGround rfl)
  | @compound within f as bs hlen _ ih =>
      obtain ⟨p, hp, ha, hp'⟩ := exists_zip_of_mentions hlen hi
      exact ih p hp (fun j hj k hk => hw j hj k (Term.mentions_compound_iff.2 ⟨_, ha, hk⟩)) hp'

/-- Without a cycle all variables that are left are unbound. -/
theorem find?_eq_none_of_mem_expand (hA : env.Acyclic) {w : Variable}
    (hw : w ∈ (env.expand t).occurrences) : env.find? w = none := by
  have h := (expands_nil_iff hA.noAliasCycle (t := t)).2 rfl
  exact (h.residue (fun j hj => nomatch hj) ⟨w, hw, rfl⟩).resolve_right (hA w.id)

/-- Without a cycle an expansion is ground exactly if the term leads to bound variables alone. -/
theorem isGround_expand_iff (hA : env.Acyclic) :
    (env.expand t).isGround = true ↔ env.Grounded t := by
  constructor
  · exact grounded_of_isGround_expand hA
  · intro h
    rw [← Term.occurrences_eq_nil_iff, List.eq_nil_iff_forall_not_mem]
    intro w hw
    exact h.not_mentions_expand hA.noAliasCycle (find?_eq_none_of_mem_expand hA hw) ⟨w, hw, rfl⟩

/-! ### Expansions -/

/-- **Expansions keep the tree and leave nothing but cycles.**  If no variable leads back to itself
along variables, a term and its expansion have one tree under every solution, and a variable that is
left in the expansion is unbound or leads to itself through its value.  Without any cycle no bound
variable is left; an expansion is its own expansion, and that of what the term stands for; and it is
ground exactly if every variable that the term leads to is bound. -/
theorem expand_residue (hc : env.NoAliasCycle) (t : Term) :
    (∀ ρ : Valuation, ρ.Solves env → t.tree ρ = (env.expand t).tree ρ) ∧
      (∀ w ∈ (env.expand t).occurrences,
        env.find? w = none ∨ TransGen env.Refers w.id w.id) ∧
      (env.Acyclic →
        (∀ w ∈ (env.expand t).occurrences, env.find? w = none) ∧
          env.expand (env.expand t) = env.expand t ∧
          env.expand (env.deref t) = env.expand t ∧
          ((env.expand t).isGround = true ↔
            ∀ i j, t.Mentions i → ReflTransGen env.Refers i j →
              ∃ u, env.values.find? j = some u)) := by
  refine ⟨fun ρ hρ => ρ.congruence_tree.precongruence.expand hρ t, fun w hw => ?_, fun hA => ?_⟩
  · exact ((expands_nil_iff hc).2 rfl).residue (fun j hj => nomatch hj) ⟨w, hw, rfl⟩
  · exact ⟨fun w => find?_eq_none_of_mem_expand hA, (Contains.refl env).expand_expand hA t,
      expand_deref hA t, isGround_expand_iff hA⟩

/-- A variable that is left in its own expansion, beside one that is expanded twice, so that it leads
to itself; and bindings without a cycle, whose ground answer shows what all is bound. -/
theorem expand_residue_cycle :
    (∃ env : Bindings, env.NoAliasCycle ∧ env.isBound ⟨"Y", 2⟩ = true ∧
      env.expand (.compound "g" [.var ⟨"Z", 1⟩, .var ⟨"Z", 1⟩, .var ⟨"Y", 2⟩]) =
        .compound "g" [.atom "a", .atom "a", .compound "f" [.var ⟨"Y", 2⟩, .var ⟨"Y", 2⟩]] ∧
      TransGen env.Refers 2 2 ∧ ∃ ρ : Valuation, ρ.Solves env ∧
        ρ 2 = (Term.compound "f" [.var ⟨"Y", 2⟩, .var ⟨"Y", 2⟩]).tree ρ) ∧
      ∃ env : Bindings, env.Acyclic ∧
        env.expand (.var ⟨"X", 3⟩) = .compound "f" [.atom "b"] ∧
        env.expand (env.expand (.var ⟨"X", 3⟩)) = .compound "f" [.atom "b"] ∧
        ∀ j, ReflTransGen env.Refers 3 j → ∃ u, env.values.find? j = some u := by
  constructor
  · have hX : NoAliasCycle
        (.assign .empty ⟨"X", 3⟩ (.compound "f" [.var ⟨"Y", 2⟩, .var ⟨"Y", 2⟩])) :=
      noAliasCycle_empty.assign rfl fun w hw => nomatch hw
    have hXY := (hX.assign (v := ⟨"Y", 2⟩) (t := .var ⟨"X", 3⟩) rfl fun w hw => nomatch hw).assign
      (v := ⟨"Z", 1⟩) (t := .atom "a") rfl fun w hw => nomatch hw
    obtain ⟨-, hleft, -⟩ := expand_residue hXY
      (.compound "g" [.var ⟨"Z", 1⟩, .var ⟨"Z", 1⟩, .var ⟨"Y", 2⟩])
    obtain ⟨htree, -, -⟩ := expand_residue hXY (.var ⟨"Y", 2⟩)
    have hcycle := (hleft ⟨"Y", 2⟩ List.mem_cons_self).resolve_left nofun
    exact ⟨_, hXY, rfl, rfl, hcycle, _, solves_solution hXY, htree _ (solves_solution hXY)⟩
  · have hA : Acyclic (.assign (.assign .empty ⟨"X", 3⟩ (.compound "f" [.var ⟨"Y", 2⟩])) ⟨"Y", 2⟩
        (.atom "b")) := acyclic_of_entries (by decide)
    obtain ⟨-, -, hacyclic⟩ := expand_residue hA.noAliasCycle (.var ⟨"X", 3⟩)
    obtain ⟨-, hagain, -, hground⟩ := hacyclic hA
    exact ⟨_, hA, rfl, hagain, fun j => hground.1 rfl 3 j (Term.mentions_var_iff.2 rfl)⟩

end LogicTerms.Bindings
