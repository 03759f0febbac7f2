/-
**Trees, finite and infinite.**

Without an occurs check bindings can say that a variable is a term in which it occurs, such as
`X = f(X)`.  No term solves that, but the infinite tree `f(f(f(...)))` does; so the meaning of terms
is in trees that may go on for ever.  A tree has a label at its root, an atom, a number up to the
sign of a zero, or a functor with a number of arguments, and as many trees below as the label has
arguments.  A valuation gives every variable, by its id, a tree, and so gives every term one.

Main definitions:

* `Tree` — a tree of labels, finite or not;
* `Valuation` — a tree for every variable;
* `Term.tree` — the tree of a term under a valuation;
* `Valuation.Solves` — the variables have the trees of their values.

Main results:

* `Tree.atom_inj`, `Tree.num_eq_iff`, `Tree.compound_inj` — a tree has its root and what is below.
-/

import LogicTerms.Bindings.Basic
import LogicTerms.Proofs.Term.Sameness
import Mathlib.Data.PFunctor.Univariate.M
import Mathlib.Data.Setoid.Basic

set_option relaxedAutoImplicit false
set_option autoImplicit false

namespace LogicTerms

/-! ### Trees -/

/-- A number up to the sign of a zero. -/
def Number.Unsigned : Type := Quotient (Setoid.ker Number.unsignZero)

/-- What stands at a place of a tree. -/
inductive Tree.Label where
  /-- An atom, with nothing below. -/
  | atom (name : String)
  /-- A number, with nothing below. -/
  | num (n : Number.Unsigned)
  /-- A functor, with as many trees below as it has arguments. -/
  | compound (functor : String) (arity : ℕ)

/-- The number of trees below a label. -/
def Tree.Label.arity : Tree.Label → ℕ
  | .atom _ => 0
  | .num _ => 0
  | .compound _ n => n

/-- A label with something for every tree below. -/
def Tree.shape : PFunctor := ⟨Tree.Label, fun l => Fin l.arity⟩

/-- A tree of labels, finite or infinite. -/
def Tree : Type := Tree.shape.M

namespace Tree

/-- The tree with the label at its root and the trees below. -/
def node (l : Label) (below : Fin l.arity → Tree) : Tree := PFunctor.M.mk ⟨l, below⟩

/-- The label at the root. -/
def label (t : Tree) : Label := (PFunctor.M.dest t).1

/-- The trees below the root, in order. -/
def below (t : Tree) : List Tree := List.ofFn (n := t.label.arity) (PFunctor.M.dest t).2

/-- The tree of an atom. -/
def atom (name : String) : Tree := node (.atom name) Fin.elim0

/-- The tree of a number. -/
def num (n : Number) : Tree := node (.num (Quotient.mk _ n)) Fin.elim0

/-- The tree of a functor with the trees of its arguments. -/
def compound (functor : String) (args : List Tree) : Tree :=
  node (.compound functor args.length) args.get

@[simp] theorem label_atom (a : String) : (atom a).label = .atom a := rfl

@[simp] theorem label_num (n : Number) : (num n).label = .num (Quotient.mk _ n) := rfl

@[simp] theorem label_compound (f : String) (ts : List Tree) :
    (compound f ts).label = .compound f ts.length := rfl

theorem atom_inj {a b : String} (h : atom a = atom b) : a = b := by
  have hl := congrArg label h
  rw [label_atom, label_atom] at hl
  exact Label.atom.inj hl

/-- Two numbers have one tree if they differ in the sign of a zero at most. -/
theorem num_eq_iff {m n : Number} : num m = num n ↔ m.unsignZero = n.unsignZero := by
  constructor
  · intro h
    have hl := congrArg label h
    rw [label_num, label_num] at hl
    exact Quotient.exact (Label.num.inj hl)
  · intro h
    have hq : (Quotient.mk _ m : Number.Unsigned) = Quotient.mk _ n := Quotient.sound h
    rw [num, num, hq]

@[simp] theorem below_compound (f : String) (ts : List Tree) : (compound f ts).below = ts :=
  List.ofFn_get ts

/-- The tree of a compound determines the functor and the trees of the arguments. -/
theorem compound_inj {f g : String} {ts us : List Tree} (h : compound f ts = compound g us) :
    f = g ∧ ts = us := by
  have hl := congrArg label h
  have hb := congrArg below h
  rw [label_compound, label_compound] at hl
  rw [below_compound, below_compound] at hb
  exact ⟨(Label.compound.inj hl).1, hb⟩

end Tree

/-! ### Terms as trees -/

/-- A tree for every variable, by its id. -/
abbrev Valuation := UInt64 → Tree

namespace Term

mutual

/-- The tree of a term. -/
def tree (ρ : Valuation) : Term → Tree
  | var v => ρ v.id
  | atom a => .atom a
  | num n => .num n
  | compound f args => .compound f (trees ρ args)

/-- The trees of terms. -/
def trees (ρ : Valuation) : List Term → List Tree
  | [] => []
  | t :: ts => tree ρ t :: trees ρ ts

end

@[simp] theorem trees_eq_map (ρ : Valuation) (ts : List Term) : trees ρ ts = ts.map (tree ρ) := by
  induction ts with
  | nil => rfl
  | cons t ts ih => rw [trees, ih, List.map_cons]

end Term

/-- Every bound variable has the tree of its value. -/
def Valuation.Solves (ρ : Valuation) (env : Bindings) : Prop :=
  ∀ v t, env.find? v = some t → ρ v.id = t.tree ρ

end LogicTerms
