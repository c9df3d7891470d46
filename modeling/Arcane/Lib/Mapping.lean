import Mathlib.Algebra.BigOperators.Group.Finset.Basic
import Mathlib.Algebra.Order.BigOperators.Group.Finset

/-!
# Sums over a mapping that changes at one key

A Solidity mapping is a function, and a write to it is `Function.update`. The sum of a quantity
over all keys moves by the change at the written key (`sum_change`), which is stated in `ℕ`
without subtraction. `sum_change₂` is the same for two keys at once.
-/

namespace Mapping

variable {ι : Type} [DecidableEq ι] {s : Finset ι} {f g : ι → ℕ}

/-- The sum of a quantity that differs at the key `i` only. -/
theorem sum_change {i : ι} (hi : i ∈ s) (h : ∀ x ∈ s, x ≠ i → g x = f x) :
    ∑ x ∈ s, g x + f i = ∑ x ∈ s, f x + g i := by
  have h₁ := Finset.add_sum_erase s f hi
  have h₂ := Finset.add_sum_erase s g hi
  have h₃ : ∑ x ∈ s.erase i, g x = ∑ x ∈ s.erase i, f x :=
    Finset.sum_congr rfl fun x hx => h x (Finset.mem_of_mem_erase hx) (Finset.ne_of_mem_erase hx)
  omega

/-- The sum after a write to the key `i`. -/
theorem sum_update {i : ι} (hi : i ∈ s) (f : ι → ℕ) (v : ℕ) :
    ∑ x ∈ s, Function.update f i v x + f i = ∑ x ∈ s, f x + v := by
  have := sum_change (f := f) (g := Function.update f i v) hi fun x _ hx =>
    Function.update_of_ne hx _ _
  rwa [Function.update_self] at this

/-- The sum of a quantity of the entries after a write to the key `i`. -/
theorem sum_map_update {β : Type} {i : ι} (hi : i ∈ s) (q : β → ℕ) (f : ι → β) (v : β) :
    ∑ x ∈ s, q (Function.update f i v x) + q (f i) = ∑ x ∈ s, q (f x) + q v := by
  have := sum_change (f := fun x => q (f x)) (g := fun x => q (Function.update f i v x)) hi
    fun x _ hx => by rw [Function.update_of_ne hx]
  simpa using this

/-- The sum of a quantity that differs at the keys `i ≠ j` only. -/
theorem sum_change₂ {i j : ι} (hi : i ∈ s) (hj : j ∈ s) (hij : i ≠ j)
    (h : ∀ x ∈ s, x ≠ i → x ≠ j → g x = f x) :
    ∑ x ∈ s, g x + f i + f j = ∑ x ∈ s, f x + g i + g j := by
  have h₁ := sum_update hi f (g i)
  have h₂ := sum_change (f := Function.update f i (g i)) (g := g) hj fun x hx hxj => by
    by_cases hxi : x = i
    · subst hxi; simp
    · rw [Function.update_of_ne hxi, h x hx hxi hxj]
  rw [Function.update_of_ne hij.symm] at h₂
  omega

omit [DecidableEq ι] in
/-- One entry of a sum. -/
theorem le_sum {i : ι} (hi : i ∈ s) : f i ≤ ∑ x ∈ s, f x :=
  Finset.single_le_sum (fun _ _ => Nat.zero_le _) hi

/-- Two entries of a sum. -/
theorem add_le_sum {i j : ι} (hi : i ∈ s) (hj : j ∈ s) (hij : i ≠ j) :
    f i + f j ≤ ∑ x ∈ s, f x := by
  rw [← Finset.sum_pair hij]
  exact Finset.sum_le_sum_of_subset (Finset.insert_subset hi (Finset.singleton_subset_iff.mpr hj))

end Mapping
