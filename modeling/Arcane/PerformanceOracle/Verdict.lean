import Arcane.PerformanceOracle.Defs

/-!
# The verdict of the oracle

The price fields are so narrow that the checked arithmetic of `_returnBps` and `_shouldSlash`
never goes out of range: `verdict_ok` gives the verdict of every advice with a price to measure
against. It is a slash exactly when the return is adverse beyond the tolerance and the confidence
band (`Advice.Adverse`).
-/

namespace Arcane
namespace PerformanceOracle

open Evm

theorem fits_of_natAbs {x : ℤ} (h : x.natAbs < 2 ^ 255) : I256.Fits x := by
  unfold I256.Fits
  omega

theorem fits_tdiv {x y : ℤ} (h : x.natAbs < 2 ^ 255) : I256.Fits (x.tdiv y) := by
  refine fits_of_natAbs (lt_of_le_of_lt ?_ h)
  rw [Int.natAbs_tdiv]
  exact Nat.div_le_self _ _

/-- `direction * (p1 - p0) * 10000 / |p0|`, rounded toward zero. -/
def Advice.returnBps (a : Advice) (p1 : Price) : ℤ :=
  (a.direction.toInt * (p1.price.toInt - a.p0.toInt) * 10000).tdiv |a.p0.toInt|

/-- The confidence of the price in basis points of `|p0|`. -/
def Advice.confidenceBps (a : Advice) (p1 : Price) : ℤ :=
  ((p1.conf.toNat : ℤ) * 10000).tdiv |a.p0.toInt|

/-- The return is adverse beyond the tolerance and the confidence band. -/
def Advice.Adverse (a : Advice) (p1 : Price) : Prop :=
  a.returnBps p1 < 0 ∧ a.returnBps p1 < -(a.slashThresholdBps.toNat + a.confidenceBps p1)

instance (a : Advice) (p1 : Price) : Decidable (a.Adverse p1) := inferInstanceAs (Decidable (_ ∧ _))

section

variable {a : Advice} {p0 p1 : Int64}

theorem natAbs_price_sub (p0 p1 : Int64) : (p1.toInt - p0.toInt).natAbs ≤ 2 ^ 64 := by
  have h₀ := Int64.le_toInt p0
  have h₀' := Int64.toInt_lt p0
  have h₁ := Int64.le_toInt p1
  have h₁' := Int64.toInt_lt p1
  omega

theorem natAbs_directed (d : Int8) (p0 p1 : Int64) :
    (d.toInt * (p1.toInt - p0.toInt)).natAbs ≤ 2 ^ 7 * 2 ^ 64 := by
  have h := Int8.le_toInt d
  have h' := Int8.toInt_lt d
  rw [Int.natAbs_mul]
  exact Nat.mul_le_mul (by omega) (natAbs_price_sub p0 p1)

theorem absPrice_eq (p0 : Int64) : absPrice p0 = .ok |p0.toInt| := by
  have h := Int64.le_toInt p0
  have h' := Int64.toInt_lt p0
  have hle : (0 : Int64) ≤ p0 ↔ 0 ≤ p0.toInt := Int64.le_iff_toInt_le
  unfold absPrice
  split
  · rename_i hp
    rw [abs_of_nonneg (hle.mp hp)]
    rfl
  · rename_i hp
    rw [hle] at hp
    rw [abs_of_neg (by omega), I256.neg_ok]
    exact ⟨fits_of_natAbs (by omega), rfl⟩

/-- The denominator is `|p0|`, and a price of zero is refused. -/
theorem denominator_ok {denom : ℤ} :
    denominator p0 = .ok denom ↔ p0.toInt ≠ 0 ∧ denom = |p0.toInt| := by
  simp only [denominator, absPrice_eq, ok_bind, bind_ok, require_ok, pure_ok, ne_eq, abs_eq_zero]
  constructor
  · rintro ⟨_, hne, rfl⟩
    exact ⟨hne, rfl⟩
  · rintro ⟨hne, rfl⟩
    exact ⟨(), hne, rfl⟩

theorem returnBps_ok {direction : Int8} {rBps : ℤ} :
    returnBps p0 p1 direction = .ok rBps ↔ p0.toInt ≠ 0 ∧
      rBps = (direction.toInt * (p1.toInt - p0.toInt) * 10000).tdiv |p0.toInt| := by
  have hsub := natAbs_price_sub p0 p1
  have hdir := natAbs_directed direction p0 p1
  have hscaled : (direction.toInt * (p1.toInt - p0.toInt) * 10000).natAbs < 2 ^ 255 := by omega
  simp only [returnBps, bind_ok, denominator_ok, I256.sub_ok, I256.mul_ok, I256.div_ok]
  constructor
  · rintro ⟨_, ⟨hne, rfl⟩, _, ⟨-, rfl⟩, _, ⟨-, rfl⟩, _, ⟨-, rfl⟩, -, rfl⟩
    exact ⟨hne, rfl⟩
  · rintro ⟨hne, rfl⟩
    exact ⟨_, ⟨hne, rfl⟩, _, ⟨fits_of_natAbs (by omega), rfl⟩, _, ⟨fits_of_natAbs (by omega), rfl⟩,
      _, ⟨fits_of_natAbs hscaled, rfl⟩, fits_tdiv hscaled, rfl⟩

theorem shouldSlash_ok {rBps : ℤ} {threshold : UInt32} {conf1 : UInt64} {b : Bool}
    (hne : p0.toInt ≠ 0) :
    shouldSlash rBps threshold conf1 p0 = .ok b ↔
      b = decide (rBps < 0 ∧
        rBps < -(threshold.toNat + ((conf1.toNat : ℤ) * 10000).tdiv |p0.toInt|)) := by
  have hconf := UInt64.toNat_lt conf1
  have hthr := UInt32.toNat_lt threshold
  have hscaled : ((conf1.toNat : ℤ) * 10000).natAbs < 2 ^ 78 := by omega
  have hdiv : (((conf1.toNat : ℤ) * 10000).tdiv |p0.toInt|).natAbs < 2 ^ 78 := by
    refine lt_of_le_of_lt ?_ hscaled
    rw [Int.natAbs_tdiv]
    exact Nat.div_le_self _ _
  unfold shouldSlash
  split
  · rename_i hr
    rw [decide_eq_false (fun h => by omega), pure_ok, eq_comm]
  · rename_i hr
    simp only [bind_ok, denominator_ok, I256.mul_ok, I256.div_ok, I256.add_ok, I256.neg_ok, pure_ok]
    have hr' : rBps < 0 := by omega
    simp only [hr', true_and]
    constructor
    · rintro ⟨_, ⟨-, rfl⟩, _, ⟨-, rfl⟩, _, ⟨-, rfl⟩, _, ⟨-, rfl⟩, _, ⟨-, rfl⟩, rfl⟩
      rfl
    · rintro rfl
      exact ⟨_, ⟨hne, rfl⟩, _, ⟨fits_of_natAbs (by omega), rfl⟩, _,
        ⟨fits_of_natAbs (by omega), rfl⟩, _, ⟨fits_of_natAbs (by omega), rfl⟩, _,
        ⟨fits_of_natAbs (by omega), rfl⟩, rfl⟩

/-- The verdict of every advice recorded at a price other than zero. -/
theorem verdict_ok {p1 : Price} {b : Bool} :
    verdict a p1 = .ok b ↔ a.p0 ≠ 0 ∧ b = decide (a.Adverse p1) := by
  have hz : a.p0.toInt ≠ 0 ↔ a.p0 ≠ 0 := not_congr (by rw [← Int64.toInt_inj]; rfl)
  simp only [verdict, bind_ok, returnBps_ok]
  rw [← hz]
  constructor
  · rintro ⟨_, ⟨hne, rfl⟩, h⟩
    exact ⟨hne, (shouldSlash_ok hne).mp h⟩
  · rintro ⟨hne, hb⟩
    exact ⟨_, ⟨hne, rfl⟩, (shouldSlash_ok hne).mpr hb⟩

end

end PerformanceOracle
end Arcane
