/-
**Arithmetic goes by values.**

On exact numbers the four operations are those of the rational numbers, and the kinds of the operands
do not count: integers are not treated apart, although they are added, subtracted and multiplied as
integers.  The kind of the result is that of its value, an integer if it can be one.  With a double on
either side the operation is that on doubles, which is exact and rounded once.  Only the exact
division by zero has no result.

Main definitions:

* `Number.Operation` — the four operations, on numbers and on all that numbers stand for;
* `Number.IsCanonical` — the number that stands for a rational number.

Main results:

* `Number.isCanonical_ofRat` — every rational number has one;
* `Number.Operation.apply_of_toRat?` — an operation on exact numbers;
* `Number.Operation.apply_of_isFloat`, `Number.Operation.rounds_onDoubles` — an operation on a double;
* `Number.arithmetic_of_values` — **arithmetic goes by values**.
-/

import LogicTerms.Number.Arithmetic
import LogicTerms.Proofs.Binary64.Arithmetic

set_option relaxedAutoImplicit false
set_option autoImplicit false

namespace LogicTerms.Number

variable {a b c a' b' : Number} {p q v : ℚ}

/-! ### The four operations -/

/-- An operation on two numbers. -/
inductive Operation where
  | add
  | sub
  | mul
  | div
  deriving DecidableEq

namespace Operation

/-- The operation on numbers. -/
def apply : Operation → Number → Number → Option Number
  | add => Number.add
  | sub => Number.sub
  | mul => Number.mul
  | div => Number.div

/-- The operation on rational numbers. -/
def onRat : Operation → ℚ → ℚ → ℚ
  | add => (· + ·)
  | sub => (· - ·)
  | mul => (· * ·)
  | div => (· / ·)

/-- The operation on doubles. -/
def onDoubles : Operation → Binary64 → Binary64 → Binary64
  | add => Binary64.add
  | sub => Binary64.sub
  | mul => Binary64.mul
  | div => Binary64.div

/-- The operation on exact values of doubles. -/
def onExact : Operation → Binary64.Exact → Binary64.Exact → Binary64.Exact
  | add => Binary64.Exact.add
  | sub => Binary64.Exact.sub
  | mul => Binary64.Exact.mul
  | div => Binary64.Exact.div

/-- The operation on rational numbers, with a number for its result; none by zero. -/
def onRat? (op : Operation) (p q : ℚ) : Option Number :=
  if op = div ∧ q = 0 then none else some (ofRat (op.onRat p q))

/-- **Operations on doubles are exact and rounded once.** -/
theorem rounds_onDoubles (op : Operation) (x y : Binary64) :
    (op.onExact x.exact y.exact).Rounds (op.onDoubles x y) := by
  cases op with
  | add => exact Binary64.rounds_add x y
  | sub => exact Binary64.rounds_sub x y
  | mul => exact Binary64.rounds_mul x y
  | div => exact Binary64.rounds_div x y

end Operation

/-! ### Canonical numbers -/

/-- The number that stands for a rational number: an integer if it is one, and otherwise a ratio in
lowest terms. -/
structure IsCanonical (v : ℚ) (c : Number) : Prop where
  /-- It has the value. -/
  value : c.toRat? = some v
  /-- It is an integer if the value is one, and only then. -/
  isInt_iff : c.isInt = true ↔ ∃ i : ℤ, (i : ℚ) = v
  /-- A ratio is in lowest terms over a positive denominator. -/
  lowest : ∀ {q : ℚ}, c = ratio q → 0 < q.den ∧ q.num.natAbs.Coprime q.den

theorem ofRat_intCast (i : ℤ) : ofRat (i : ℚ) = int i := by
  rw [ofRat, Rat.den_intCast, if_pos rfl, Rat.num_intCast]

/-- Every rational number has a number that stands for it. -/
theorem isCanonical_ofRat (v : ℚ) : IsCanonical v (ofRat v) := by
  by_cases h : ∃ i : ℤ, (i : ℚ) = v
  · obtain ⟨i, rfl⟩ := h
    rw [ofRat_intCast]
    exact ⟨rfl, iff_of_true rfl ⟨i, rfl⟩, fun hq => nomatch hq⟩
  · have hden : v.den ≠ 1 := fun hden => h ⟨v.num, Rat.den_eq_one_iff v |>.1 hden⟩
    rw [ofRat, if_neg hden]
    exact ⟨rfl, iff_of_false Bool.false_ne_true h, fun _ => ⟨Rat.den_pos _, Rat.reduced _⟩⟩

/-! ### Operations on numbers -/

theorem toRat?_eq_none_iff : a.toRat? = none ↔ a.isFloat = true := by
  cases a <;> simp [toRat?, isFloat]

section Dispatch

variable {onFloats : Binary64 → Binary64 → Binary64} {onExact : ℚ → ℚ → Option Number}

theorem dispatch_of_toRat? (ha : a.toRat? = some p) (hb : b.toRat? = some q) :
    dispatch onFloats onExact a b = onExact p q := by
  rw [dispatch, ha, hb]

theorem dispatch_of_isFloat (h : a.isFloat = true ∨ b.isFloat = true) :
    dispatch onFloats onExact a b = some (float (onFloats a.toBinary64 b.toBinary64)) := by
  rw [dispatch]
  rcases h with h | h
  · rw [toRat?_eq_none_iff.2 h]
  · rw [toRat?_eq_none_iff.2 h]
    cases a.toRat? <;> rfl

end Dispatch

namespace Operation

/-- **No kind is treated apart**: the operations that have a case of their own for integers come to the
same there. -/
theorem apply_eq_dispatch (op : Operation) (a b : Number) :
    op.apply a b = dispatch op.onDoubles op.onRat? a b := by
  have honRat : op ≠ div → op.onRat? = fun p q => some (ofRat (op.onRat p q)) := by
    intro hop
    funext p q
    rw [onRat?, if_neg fun h => hop h.1]
  have hints : ∀ i j k : ℤ, op ≠ div → op.onRat i j = (k : ℚ) →
      some (int k) = dispatch op.onDoubles op.onRat? (int i) (int j) := by
    intro i j k hop hk
    rw [dispatch_of_toRat? rfl rfl, onRat?, if_neg fun h => hop h.1, hk, ofRat_intCast]
  cases op with
  | add =>
      cases a with
      | int i =>
          cases b with
          | int j => exact hints i j (i + j) nofun (Int.cast_add i j).symm
          | _ => rw [honRat nofun]; rfl
      | _ => rw [honRat nofun]; rfl
  | sub =>
      cases a with
      | int i =>
          cases b with
          | int j => exact hints i j (i - j) nofun (Int.cast_sub i j).symm
          | _ => rw [honRat nofun]; rfl
      | _ => rw [honRat nofun]; rfl
  | mul =>
      cases a with
      | int i =>
          cases b with
          | int j => exact hints i j (i * j) nofun (Int.cast_mul i j).symm
          | _ => rw [honRat nofun]; rfl
      | _ => rw [honRat nofun]; rfl
  | div =>
      have hdiv : div.onRat? = fun p q => if q = 0 then none else some (ofRat (p / q)) := by
        funext p q
        simp only [onRat?, true_and]
        rfl
      rw [hdiv]
      rfl

/-- **An operation on exact numbers** is that on their values. -/
theorem apply_of_toRat? (op : Operation) (ha : a.toRat? = some p) (hb : b.toRat? = some q) :
    op.apply a b = op.onRat? p q := by
  rw [apply_eq_dispatch, dispatch_of_toRat? ha hb]

/-- **An operation on a double** is that on the doubles nearest to the operands. -/
theorem apply_of_isFloat (op : Operation) (h : a.isFloat = true ∨ b.isFloat = true) :
    op.apply a b = some (float (op.onDoubles a.toBinary64 b.toBinary64)) := by
  rw [apply_eq_dispatch, dispatch_of_isFloat h]

/-- Only the exact division by zero has no result. -/
theorem apply_eq_none_iff (op : Operation) (a b : Number) :
    op.apply a b = none ↔ op = div ∧ a.isFloat = false ∧ b.toRat? = some 0 := by
  rw [← Bool.not_eq_true, ← toRat?_eq_none_iff]
  cases ha : a.toRat? with
  | none =>
      rw [apply_of_isFloat op (.inl (toRat?_eq_none_iff.1 ha))]
      simp
  | some p =>
      cases hb : b.toRat? with
      | none =>
          rw [apply_of_isFloat op (.inr (toRat?_eq_none_iff.1 hb))]
          simp
      | some q =>
          rw [apply_of_toRat? op ha hb, onRat?]
          simp

end Operation

/-- **Arithmetic goes by values.**  An operation on exact numbers, other than a division by zero, gives
the number that stands for the result of the operation on their values, whatever the kinds of the
operands are.  The exact division by zero is all that has no result.  With a double on either side the
result is a double, that of the operation on the nearest doubles; it is what the exact result of their
values is rounded to, and the only one but for NaNs. -/
theorem arithmetic_of_values :
    (∀ (op : Operation) {a b : Number} {p q : ℚ}, a.toRat? = some p → b.toRat? = some q →
      (op = .div → q ≠ 0) → ∃ c, op.apply a b = some c ∧ IsCanonical (op.onRat p q) c) ∧
    (∀ (op : Operation) {a b a' b' : Number} {p q : ℚ}, a.toRat? = some p → b.toRat? = some q →
      a'.toRat? = some p → b'.toRat? = some q → op.apply a b = op.apply a' b') ∧
    (∀ (op : Operation) (a b : Number),
      op.apply a b = none ↔ op = .div ∧ a.isFloat = false ∧ b.toRat? = some 0) ∧
    (∀ (op : Operation) {a b : Number}, a.isFloat = true ∨ b.isFloat = true →
      ∃ z, op.apply a b = some (float z) ∧ z = op.onDoubles a.toBinary64 b.toBinary64 ∧
        (op.onExact a.toBinary64.exact b.toBinary64.exact).Rounds z ∧
        ∀ w, (op.onExact a.toBinary64.exact b.toBinary64.exact).Rounds w →
          w = z ∨ w.isNaN = true ∧ z.isNaN = true) := by
  refine ⟨fun op a b p q ha hb hq => ?_, fun op a b a' b' p q ha hb ha' hb' => ?_,
    Operation.apply_eq_none_iff, fun op a b h => ?_⟩
  · refine ⟨_, ?_, isCanonical_ofRat _⟩
    rw [op.apply_of_toRat? ha hb, Operation.onRat?, if_neg fun h => hq h.1 h.2]
  · rw [op.apply_of_toRat? ha hb, op.apply_of_toRat? ha' hb']
  · have hrounds := op.rounds_onDoubles a.toBinary64 b.toBinary64
    exact ⟨_, op.apply_of_isFloat h, rfl, hrounds, fun w hw => hw.unique hrounds⟩

/-- Six by four is a ratio and six by three an integer, whatever kind the six is of; one by zero has no
result; and a double is divided by the integer zero as by the double. -/
theorem arithmetic_of_values_quotients :
    (∃ c, Operation.div.apply (int 6) (ratio 4) = some c ∧ IsCanonical (3 / 2) c) ∧
      Operation.div.apply (ratio 6) (int 3) = Operation.div.apply (int 6) (ratio 3) ∧
      Operation.div.apply (int 1) (ratio 0) = none ∧
      Operation.div.apply (float (.ofInt 1)) (int 0) = some (float (.infinity false)) := by
  obtain ⟨hexact, hvalues, hnone, hfloat⟩ := arithmetic_of_values
  refine ⟨?_, hvalues .div (p := 6) (q := 3) rfl rfl rfl rfl, (hnone .div _ _).2 ⟨rfl, rfl, rfl⟩,
    ?_⟩
  · have h := hexact .div (a := int 6) (b := ratio 4) rfl rfl fun _ => by norm_num
    rwa [show Operation.div.onRat ((6 : ℤ) : ℚ) 4 = 3 / 2 by norm_num [Operation.onRat]] at h
  · obtain ⟨z, hz, hquotient, -⟩ := hfloat .div (a := float (.ofInt 1)) (b := int 0) (.inl rfl)
    rw [hz, hquotient]
    decide +kernel

end LogicTerms.Number
