import Mathlib.Algebra.BigOperators.Ring.Finset
import Mathlib.Algebra.Order.BigOperators.Group.Finset
import Mathlib.Data.Fintype.Basic
import Mathlib.Tactic.Linarith

/-!
# Pro-rata shares with a final sweep

A pot `T` is split between claimants in proportion to their stakes `s`, whose sum is `W`. Each
claimant is paid when it claims, in any order: its share `s a * T / W` rounded down, except the
last one, who sweeps what is left.

* `paid C`: what has been paid once exactly the claimants in `C` have claimed. It depends on the
  set only, not on the order (`paid_insert`), and never exceeds the pot (`paid_le`).
* `share_le_next`, `next_lt`: the sweep is at least the last claimant's own share and exceeds it
  by less than the number of claimants.
* `sum_eq_iff`: the last claimant is the one after whom every positive stake has claimed.
-/

namespace ProRata

variable {α : Type} (s : α → ℕ) (T W : ℕ)

/-- The share of `a`, rounded down. -/
def share (a : α) : ℕ := s a * T / W

/-- What has been paid when the claimants in `C` have claimed. -/
def paid (C : Finset α) : ℕ :=
  if ∑ x ∈ C, s x = W then T else ∑ x ∈ C, share s T W x

/-- What `a` is paid when it claims after the claimants in `C`. -/
def next (C : Finset α) (a : α) : ℕ :=
  if ∑ x ∈ C, s x + s a = W then T - paid s T W C else share s T W a

section Bounds

variable {s T W} {C : Finset α} {a : α}

/-- The shares of stakes within `W` fit in the pot. -/
theorem sum_share_le (hW : 0 < W) (hC : ∑ x ∈ C, s x ≤ W) : ∑ x ∈ C, share s T W x ≤ T := by
  have h₁ : (∑ x ∈ C, share s T W x) * W ≤ ∑ x ∈ C, s x * T := by
    rw [Finset.sum_mul]
    exact Finset.sum_le_sum fun x _ => Nat.div_mul_le_self _ _
  have h₂ : ∑ x ∈ C, s x * T ≤ T * W := by
    rw [← Finset.sum_mul, Nat.mul_comm T W]
    exact Nat.mul_le_mul_right T hC
  exact Nat.le_of_mul_le_mul_right (h₁.trans h₂) hW

/-- The payments never exceed the pot. -/
theorem paid_le (hW : 0 < W) (hC : ∑ x ∈ C, s x ≤ W) : paid s T W C ≤ T := by
  unfold paid
  split
  · exact le_rfl
  · exact sum_share_le hW hC

theorem paid_of_lt (hC : ∑ x ∈ C, s x < W) : paid s T W C = ∑ x ∈ C, share s T W x :=
  if_neg (by omega)

theorem paid_of_eq (hC : ∑ x ∈ C, s x = W) : paid s T W C = T := if_pos hC

theorem paid_empty (hW : 0 < W) : paid s T W ∅ = 0 := by
  rw [paid_of_lt (by simpa using hW)]
  simp

/-- A positive stake has a positive share of a pot that is at least the stakes. -/
theorem share_pos (ha : 0 < s a) (hW : 0 < W) (hT : W ≤ T) : 0 < share s T W a :=
  Nat.div_pos (hT.trans (Nat.le_mul_of_pos_left T ha)) hW

/-- Each share loses less than one to rounding. -/
theorem lt_sum_share (hW : 0 < W) (hC : ∑ x ∈ C, s x = W) :
    T < ∑ x ∈ C, share s T W x + C.card := by
  have hne : C.Nonempty := by
    rw [Finset.nonempty_iff_ne_empty]
    rintro rfl
    simp at hC
    omega
  have h : T * W < (∑ x ∈ C, share s T W x + C.card) * W := calc
    T * W = ∑ x ∈ C, s x * T := by rw [← Finset.sum_mul, hC, Nat.mul_comm]
    _ < ∑ x ∈ C, (share s T W x + 1) * W := by
      refine Finset.sum_lt_sum_of_nonempty hne ?_
      intro x _
      have h₁ := Nat.div_add_mod (s x * T) W
      have h₂ := Nat.mod_lt (s x * T) hW
      unfold share
      nlinarith
    _ = (∑ x ∈ C, share s T W x + C.card) * W := by
      rw [← Finset.sum_mul, Finset.sum_add_distrib, Finset.card_eq_sum_ones]
  exact Nat.lt_of_mul_lt_mul_right h

variable [DecidableEq α]

/-- One more claimant is paid exactly `next`. -/
theorem paid_insert (hW : 0 < W) (ha : a ∉ C) (hpos : 0 < s a)
    (hC : ∑ x ∈ C, s x + s a ≤ W) :
    paid s T W (insert a C) = paid s T W C + next s T W C a := by
  have hsum : ∑ x ∈ insert a C, s x = ∑ x ∈ C, s x + s a := by
    rw [Finset.sum_insert ha, Nat.add_comm]
  have hle : paid s T W C ≤ T := paid_le hW (by omega)
  unfold next
  split
  · rename_i hlast
    rw [paid_of_eq (by omega)]
    omega
  · rw [paid_of_lt (C := insert a C) (by omega), paid_of_lt (by omega), Finset.sum_insert ha,
      Nat.add_comm]

/-- The payment is at least the claimant's own share. -/
theorem share_le_next (hW : 0 < W) (ha : a ∉ C) (hpos : 0 < s a) :
    share s T W a ≤ next s T W C a := by
  unfold next
  split
  · rename_i hlast
    have hsum : ∑ x ∈ insert a C, s x ≤ W := by rw [Finset.sum_insert ha]; omega
    have hins := sum_share_le (T := T) hW hsum
    rw [Finset.sum_insert ha] at hins
    rw [paid_of_lt (by omega)]
    omega
  · exact le_rfl

/-- The payment exceeds the claimant's own share by less than the number of claimants. -/
theorem next_lt (hW : 0 < W) (ha : a ∉ C) (hpos : 0 < s a) :
    next s T W C a < share s T W a + (insert a C).card := by
  have hcard : 0 < (insert a C).card := Finset.card_pos.mpr (Finset.insert_nonempty a C)
  unfold next
  split
  · rename_i hlast
    have hsum : ∑ x ∈ insert a C, s x = W := by rw [Finset.sum_insert ha]; omega
    have hins := lt_sum_share (T := T) hW hsum
    rw [Finset.sum_insert ha] at hins
    rw [paid_of_lt (by omega)]
    omega
  · omega

/-- The claimed stakes reach the sum of all stakes exactly when every positive stake claimed. -/
theorem sum_eq_iff [Fintype α] :
    ∑ x ∈ C, s x = ∑ x, s x ↔ ∀ x, 0 < s x → x ∈ C := by
  have hsplit := Finset.sum_sdiff (f := s) (Finset.subset_univ C)
  constructor
  · intro h x hx
    by_contra hxC
    have hz : ∑ y ∈ Finset.univ \ C, s y = 0 := by omega
    have := Finset.sum_eq_zero_iff.mp hz x (by simp [hxC])
    omega
  · intro h
    have hz : ∑ y ∈ Finset.univ \ C, s y = 0 := by
      apply Finset.sum_eq_zero
      intro y hy
      by_contra hne
      exact (Finset.mem_sdiff.mp hy).2 (h y (by omega))
    omega

end Bounds

end ProRata
