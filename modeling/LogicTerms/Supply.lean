/-
**A supply of variables.**

Fresh variables get their ids from a counter that starts at one.  Ids stay below `2 ^ 53`, so that
each is a double without rounding; after the last one the counter starts again.

Main definitions:

* `Supply` — the id of the next variable;
* `Supply.fresh` — a new variable, and the supply that is left.

Main results:

* `Supply.fresh_id_lt` — ids stay in range.
-/

import LogicTerms.Term.Basic

set_option relaxedAutoImplicit false
set_option autoImplicit false

namespace LogicTerms

/-- The greatest id of a fresh variable. -/
def Supply.lastId : Nat := 2 ^ 53 - 1

/-- What is left of the ids. -/
structure Supply where
  /-- The id of the next variable. -/
  next : Nat
  /-- It is in range. -/
  next_le : next ≤ Supply.lastId

namespace Supply

/-- Nothing has been taken yet. -/
def full : Supply := ⟨1, by decide⟩

/-- A new variable with the given name, and what is left of the supply. -/
def fresh (s : Supply) (name : String) : Variable × Supply :=
  (⟨name, UInt64.ofNat s.next⟩,
    if h : s.next < lastId then ⟨s.next + 1, h⟩ else full)

/-- New variables with the given names, in order. -/
def freshAll (s : Supply) : List String → List Variable × Supply
  | [] => ([], s)
  | name :: names =>
    let (v, s) := s.fresh name
    let (vs, s) := s.freshAll names
    (v :: vs, s)

/-- Ids stay in range. -/
theorem fresh_id_lt (s : Supply) (name : String) : (s.fresh name).1.id.toNat < 2 ^ 53 := by
  have h := s.next_le
  simp only [fresh, UInt64.toNat_ofNat']
  unfold lastId at h
  omega

end Supply

end LogicTerms
