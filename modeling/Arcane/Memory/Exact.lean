import Arcane.Memory.Service
import Mathlib.Algebra.Field.Basic
import Mathlib.Order.Defs.LinearOrder

/-!
# Exact arithmetic

What the operations on 64-bit numbers are when nothing is rounded and nothing overflows.
-/

namespace Arcane
namespace Memory

/-- The finite numbers are an ordered field, and the operations on them are its own. -/
structure Numerics.Exact {K E : Type} [Field K] [LinearOrder K] (N : Numerics K E) : Prop where
  quot : ∀ a b : ℕ, b ≠ 0 → N.quot a b = .finite (a / b)
  add : ∀ x y, N.add (.finite x) (.finite y) = .finite (x + y)
  sub : ∀ x y, N.sub (.finite x) (.finite y) = .finite (x - y)
  mul : ∀ x y, N.mul (.finite x) (.finite y) = .finite (x * y)
  div : ∀ x y, y ≠ 0 → N.div (.finite x) (.finite y) = .finite (x / y)
  neg : ∀ x, N.neg (.finite x) = .finite (-x)
  lt : ∀ x y, N.lt (.finite x) (.finite y) = true ↔ x < y
  le : ∀ x y, N.le (.finite x) (.finite y) = true ↔ x ≤ y

namespace Numerics.Exact

variable {K E : Type} [Field K] [LinearOrder K] {N : Numerics K E} (hN : N.Exact)

include hN

theorem quot_one (a : ℕ) : N.quot a 1 = .finite (a : K) := by
  rw [hN.quot a 1 one_ne_zero, Nat.cast_one, div_one]

theorem quot_zero : N.quot 0 1 = .finite (0 : K) := by
  rw [hN.quot_one, Nat.cast_zero]

/-- `max(0.0, x)`. -/
theorem max_zero (x : K) :
    (if N.lt (N.quot 0 1) (.finite x) then .finite x else N.quot 0 1) = .finite (max 0 x) := by
  rw [hN.quot_zero]
  split
  · next h => rw [max_eq_right ((hN.lt 0 x).mp h).le]
  · next h => rw [max_eq_left (not_lt.mp (mt (hN.lt 0 x).mpr h))]

end Numerics.Exact

namespace Numerics

variable {K : Type} [Field K] [LinearOrder K]

/-- An operation on the finite numbers. -/
def onFinite (f : K → K → K) : Double K → Double K → Double K
  | .finite x, .finite y => .finite (f x y)
  | _, _ => .nan

/-- A comparison of the finite numbers. -/
def ofFinite (f : K → K → Bool) : Double K → Double K → Bool
  | .finite x, .finite y => f x y
  | _, _ => false

/-- The operations of an ordered field on 64-bit numbers, with arrays that hold nothing. -/
def scalars (exp : Double K → Option (Double K)) : Numerics K Unit where
  single _ := ()
  double _ := .finite 0
  single_double _ := rfl
  quot a b := .finite (a / b)
  add := onFinite (· + ·)
  sub := onFinite (· - ·)
  div := onFinite (· / ·)
  mul := onFinite (· * ·)
  neg := onFinite (fun _ x => -x) (.finite 0)
  lt := ofFinite fun x y => decide (x < y)
  le := ofFinite fun x y => decide (x ≤ y)
  exp := exp
  subE _ _ := ()
  divE _ _ := ()
  nonneg _ := true
  norm _ := .finite 0
  isZero _ := true
  l1 _ := .finite 0
  rotate _ _ v := v
  length_rotate _ _ _ h := h
  scan _ rows := rows.map fun _ => .finite 0
  length_scan _ _ := List.length_map _
  top _ _ := some []
  top_isSome _ _ _ := rfl
  lt_of_mem_top _ _ _ h _ hi := by
    cases h
    cases hi

theorem exact_scalars (exp : Double K → Option (Double K)) : (scalars exp).Exact where
  quot _ _ _ := rfl
  add _ _ := rfl
  sub _ _ := rfl
  mul _ _ := rfl
  div _ _ _ := rfl
  neg _ := rfl
  lt _ _ := decide_eq_true_iff
  le _ _ := decide_eq_true_iff

end Numerics
end Memory
end Arcane
