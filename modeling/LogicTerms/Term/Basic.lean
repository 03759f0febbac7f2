/-
**Terms.**

A term is a variable, an atom, a number, or a compound of a functor and a list of arguments.  A
variable is known by its id alone; its name is for people.  A compound may have an empty list of
arguments and is then still not an atom, although `Term.apply` builds an atom where it is given no
arguments.

Main definitions:

* `Variable`, `Term` — variables and terms;
* `Term.apply` — a functor applied to arguments;
* `Term.equal` — equality, by ids for variables and by value for doubles;
* `Term.isGround` — no variable occurs;
* `Term.Kind`, `Term.kind` — the six types of term.

Main results:

* `Term.induct` — induction with a hypothesis for every argument;
* `Term.isGroundArgs_eq_all` — terms are ground together when each is.
-/

import LogicTerms.Number.Basic

set_option relaxedAutoImplicit false
set_option autoImplicit false

namespace LogicTerms

/-! ### Variables -/

/-- A logic variable. -/
structure Variable where
  /-- For people; two variables may share it. -/
  name : String
  /-- What distinguishes the variable from every other. -/
  id : UInt64
  deriving DecidableEq

/-- The name of a variable that nobody asks about. -/
def Variable.isAnonymous (v : Variable) : Bool := v.name == "_"

/-! ### Terms -/

/-- A term. -/
inductive Term where
  /-- A variable. -/
  | var (v : Variable)
  /-- A constant that stands for itself. -/
  | atom (name : String)
  /-- A number. -/
  | num (n : Number)
  /-- A functor with its arguments. -/
  | compound (functor : String) (args : List Term)

namespace Term

/-- Induction on terms, with a hypothesis for every argument of a compound. -/
@[elab_as_elim]
theorem induct {motive : Term → Prop} (var : ∀ v, motive (.var v)) (atom : ∀ a, motive (.atom a))
    (num : ∀ n, motive (.num n))
    (compound : ∀ f args, (∀ t ∈ args, motive t) → motive (.compound f args)) (t : Term) :
    motive t :=
  Term.rec (motive_2 := fun ts => ∀ t ∈ ts, motive t) var atom num compound
    (fun _ h => nomatch h)
    (fun _ _ ih ihs _ h => (List.mem_cons.mp h).elim (fun e => e ▸ ih) (ihs _)) t

/-- The functor of the arguments, or the atom of that name if there are none. -/
def apply (functor : String) (args : List Term) : Term :=
  if args.isEmpty then atom functor else compound functor args

/-- An integer as a term. -/
def ofInt (i : Int) : Term := num (.int i)

/-- A double as a term. -/
def ofBinary64 (x : Binary64) : Term := num (.float x)

/-! ### Equality -/

mutual

/-- The same term: variables by id, numbers by kind and value. -/
def equal : Term → Term → Bool
  | var v, var w => v.id == w.id
  | atom a, atom b => a == b
  | num m, num n => m.equal n
  | compound f as, compound g bs => f == g && equalArgs as bs
  | _, _ => false

/-- The same arguments in the same order. -/
def equalArgs : List Term → List Term → Bool
  | [], [] => true
  | a :: as, b :: bs => equal a b && equalArgs as bs
  | _, _ => false

end

/-! ### Ground terms -/

mutual

/-- No variable occurs in the term. -/
def isGround : Term → Bool
  | var _ => false
  | atom _ => true
  | num _ => true
  | compound _ args => isGroundArgs args

/-- No variable occurs in any of the terms. -/
def isGroundArgs : List Term → Bool
  | [] => true
  | t :: ts => isGround t && isGroundArgs ts

end

theorem isGroundArgs_eq_all (ts : List Term) : isGroundArgs ts = ts.all isGround := by
  induction ts with
  | nil => rfl
  | cons t ts ih => rw [isGroundArgs, List.all_cons, ih]

/-! ### Kinds -/

/-- The types of term, in the order in which they are compared. -/
inductive Kind where
  | variable
  | float
  | rational
  | integer
  | atom
  | compound
  deriving DecidableEq

/-- The name of a type of term. -/
def Kind.name : Kind → String
  | .variable => "Variable"
  | .float => "Float"
  | .rational => "Rational"
  | .integer => "Integer"
  | .atom => "Atom"
  | .compound => "Compound"

/-- The place of a type among the types. -/
def Kind.rank : Kind → Nat
  | .variable => 0
  | .float => 1
  | .rational => 2
  | .integer => 3
  | .atom => 4
  | .compound => 5

/-- The order of the types. -/
def Kind.compare (j k : Kind) : Ordering := Ord.compare j.rank k.rank

/-- The type of a term. -/
def kind : Term → Kind
  | var _ => .variable
  | atom _ => .atom
  | num (.int _) => .integer
  | num (.float _) => .float
  | num (.ratio _) => .rational
  | compound _ _ => .compound

/-- A variable. -/
def isVariable : Term → Bool
  | var _ => true
  | _ => false

/-- An atom. -/
def isAtom : Term → Bool
  | atom _ => true
  | _ => false

/-- A number of any kind. -/
def isNumber : Term → Bool
  | num _ => true
  | _ => false

/-- A compound. -/
def isCompound : Term → Bool
  | compound _ _ => true
  | _ => false

/-- An atom or a compound. -/
def isCallable (t : Term) : Bool := t.isAtom || t.isCompound

end Term

end LogicTerms
