import Mathlib.Algebra.BigOperators.Group.List.Basic
import Mathlib.Algebra.Order.Group.Unbundled.Abs
import Mathlib.Algebra.Ring.Int.Defs
import Mathlib.Data.Int.Order.Basic

/-!
# The numbers of JavaScript

`Doubles` is what a program relies on that counts with them: `Number` of a `bigint` is exact up to
`2 ^ 53`, and keeps the order beyond. `lt_ofInt`: so an exact number is compared with any other as
the integers are; `sum_exact`: sums are exact while they are small.
-/

structure Doubles (D : Type) where
  /-- `Number` of a `bigint`. -/
  ofInt : ℤ → D
  /-- `BigInt` of a number, which is the integer that it is. -/
  bigInt : D → ℤ
  add : D → D → D
  sub : D → D → D
  div : D → D → D
  lt : D → D → Bool
  bigInt_exact : ∀ a : ℤ, |a| ≤ 2 ^ 53 → bigInt (ofInt a) = a
  /-- Sums are exact up to `2 ^ 53`. -/
  add_exact : ∀ a b : ℤ, |a| ≤ 2 ^ 53 → |b| ≤ 2 ^ 53 → |a + b| ≤ 2 ^ 53 →
    add (ofInt a) (ofInt b) = ofInt (a + b)
  sub_exact : ∀ a b : ℤ, |a| ≤ 2 ^ 53 → |b| ≤ 2 ^ 53 → |a - b| ≤ 2 ^ 53 →
    sub (ofInt a) (ofInt b) = ofInt (a - b)
  lt_exact : ∀ a b : ℤ, |a| ≤ 2 ^ 53 → |b| ≤ 2 ^ 53 → lt (ofInt a) (ofInt b) = decide (a < b)
  /-- Rounding keeps the order. -/
  lt_mono : ∀ a b c : ℤ, lt (ofInt a) (ofInt b) = true → b ≤ c → lt (ofInt a) (ofInt c) = true

namespace Doubles

variable {D : Type} (N : Doubles D)

/-- The number of an exact integer. -/
theorem ofInt_inj {a b : ℤ} (ha : |a| ≤ 2 ^ 53) (hb : |b| ≤ 2 ^ 53) :
    N.ofInt a = N.ofInt b ↔ a = b := by
  constructor
  · intro h
    have hbig := congrArg N.bigInt h
    rwa [N.bigInt_exact a ha, N.bigInt_exact b hb] at hbig
  · rintro rfl
    rfl

/-- A number below `2 ^ 53` is compared with any other as the integers are. -/
theorem lt_ofInt {a : ℕ} (ha : a < 2 ^ 53) (b : ℕ) :
    N.lt (N.ofInt a) (N.ofInt b) = decide (a < b) := by
  have hexact {n : ℕ} (hn : n ≤ 2 ^ 53) : |(n : ℤ)| ≤ 2 ^ 53 := by
    rw [abs_of_nonneg (Int.natCast_nonneg n)]
    omega
  by_cases hb : b ≤ 2 ^ 53
  · rw [N.lt_exact _ _ (hexact ha.le) (hexact hb)]
    exact decide_eq_decide.mpr Int.ofNat_lt
  · have hlimit : N.lt (N.ofInt a) (N.ofInt (2 ^ 53)) = true := by
      rw [N.lt_exact _ _ (hexact ha.le) (le_of_eq (by decide))]
      exact decide_eq_true (by omega)
    rw [N.lt_mono _ _ _ hlimit (by omega)]
    exact (decide_eq_true (by omega)).symm

/-- `sum += Number(x)` for the numbers of a list. -/
def sum (acc : D) (l : List ℤ) : D := l.foldl (fun sum x => N.add sum (N.ofInt x)) acc

/-- A sum is exact when none of its terms or partial sums is too large. -/
theorem sum_exact {l : List ℤ} {acc : ℤ} (hacc : |acc| ≤ 2 ^ 53) (hterms : ∀ x ∈ l, |x| ≤ 2 ^ 53)
    (hsums : ∀ p, p <+: l → |acc + p.sum| ≤ 2 ^ 53) :
    N.sum (N.ofInt acc) l = N.ofInt (acc + l.sum) := by
  induction l generalizing acc with
  | nil => simp [sum]
  | cons x l ih =>
    have hx := hterms x List.mem_cons_self
    have hfirst : |acc + x| ≤ 2 ^ 53 := by
      simpa using hsums [x] (by simp)
    have hrest : ∀ p, p <+: l → |acc + x + p.sum| ≤ 2 ^ 53 := by
      intro p hp
      have h := hsums (x :: p) (List.cons_prefix_cons.mpr ⟨rfl, hp⟩)
      rwa [List.sum_cons, ← add_assoc] at h
    have hstep : N.sum (N.ofInt acc) (x :: l) = N.sum (N.ofInt (acc + x)) l := by
      rw [← N.add_exact acc x hacc hx hfirst]
      rfl
    rw [hstep, ih hfirst (fun y hy => hterms y (List.mem_cons_of_mem _ hy)) hrest, List.sum_cons,
      add_assoc]

/-- Integers that are never rounded. -/
def exact : Doubles ℤ where
  ofInt x := x
  bigInt x := x
  add := (· + ·)
  sub := (· - ·)
  div := (· / ·)
  lt x y := decide (x < y)
  bigInt_exact _ _ := rfl
  add_exact _ _ _ _ _ := rfl
  sub_exact _ _ _ _ _ := rfl
  lt_exact _ _ _ _ := rfl
  lt_mono _ _ _ h hle := decide_eq_true ((of_decide_eq_true h).trans_le hle)

end Doubles
