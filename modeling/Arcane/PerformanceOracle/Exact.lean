import Arcane.PerformanceOracle.Verdict
import Mathlib.Data.Rat.Floor

/-!
# The verdict against the exact loss

The contract rounds the return toward zero and the confidence band down, each to whole basis points,
and compares the two. `Advice.loss` and `Advice.confidence` are the numbers before rounding.

* `adverse_iff`: the verdict compares their floors.
* `verdict_sandwiched`: a slash only beyond the exact band, and always from one basis point beyond
  it.
-/

namespace Arcane
namespace PerformanceOracle

/-- The exact loss, in basis points of `|p0|`. -/
def Advice.loss (a : Advice) (p1 : Price) : ℚ :=
  -(a.direction.toInt : ℚ) * (p1.price.toInt - a.p0.toInt) * 10000 / |(a.p0.toInt : ℚ)|

/-- The exact confidence of the price, in basis points of `|p0|`. -/
def Advice.confidence (a : Advice) (p1 : Price) : ℚ :=
  (p1.conf.toNat : ℚ) * 10000 / |(a.p0.toInt : ℚ)|

variable {a : Advice} {p1 : Price}

theorem floor_loss : ⌊a.loss p1⌋ =
    -(a.direction.toInt * (p1.price.toInt - a.p0.toInt) * 10000) / |a.p0.toInt| := by
  have hcast : a.loss p1 =
      ((-(a.direction.toInt * (p1.price.toInt - a.p0.toInt) * 10000) : ℤ) : ℚ) /
        ((|a.p0.toInt| : ℤ) : ℚ) := by
    rw [Advice.loss]
    push_cast
    ring
  rw [hcast, Int.floor_div_cast_of_nonneg (abs_nonneg _), Int.floor_intCast]

theorem floor_confidence : ⌊a.confidence p1⌋ = (p1.conf.toNat : ℤ) * 10000 / |a.p0.toInt| := by
  have hcast : a.confidence p1 =
      (((p1.conf.toNat : ℤ) * 10000 : ℤ) : ℚ) / ((|a.p0.toInt| : ℤ) : ℚ) := by
    rw [Advice.confidence]
    push_cast
    ring
  rw [hcast, Int.floor_div_cast_of_nonneg (abs_nonneg _), Int.floor_intCast]

theorem confidenceBps_eq : a.confidenceBps p1 = ⌊a.confidence p1⌋ := by
  rw [Advice.confidenceBps, floor_confidence, Int.tdiv_eq_ediv_of_nonneg (by omega)]

/-- The band that the contract adds to the threshold is not negative. -/
theorem confidence_floor_nonneg : 0 ≤ ⌊a.confidence p1⌋ := by
  rw [floor_confidence]
  exact Int.ediv_nonneg (by omega) (abs_nonneg _)

/-- A loss is rounded down, a gain up to zero or more. -/
theorem returnBps_lt_iff (a : Advice) (p1 : Price) {t : ℤ} (ht : 0 ≤ t) :
    a.returnBps p1 < -t ↔ t < ⌊a.loss p1⌋ := by
  rw [floor_loss, Advice.returnBps]
  generalize hn : a.direction.toInt * (p1.price.toInt - a.p0.toInt) * 10000 = n
  have hd : 0 ≤ |a.p0.toInt| := abs_nonneg _
  by_cases hsign : 0 ≤ n
  · have htrunc := Int.tdiv_nonneg hsign hd
    have hfloor : -n / |a.p0.toInt| ≤ 0 := by
      obtain hzero | hpos := hd.eq_or_lt
      · rw [← hzero, Int.ediv_zero]
      · exact Int.ediv_nonpos_of_nonpos_of_neg (by omega) hpos
    omega
  · have hneg : n.tdiv |a.p0.toInt| = -(-n / |a.p0.toInt|) := by
      rw [← Int.tdiv_eq_ediv_of_nonneg (by omega), Int.neg_tdiv, neg_neg]
    omega

/-- The contract slashes when the floor of the loss exceeds the threshold with the floor of the
band. -/
theorem adverse_iff :
    a.Adverse p1 ↔ a.slashThresholdBps.toNat + ⌊a.confidence p1⌋ < ⌊a.loss p1⌋ := by
  have hband : 0 ≤ ⌊a.confidence p1⌋ := confidence_floor_nonneg
  have hzero := returnBps_lt_iff a p1 (le_refl 0)
  have hcompare := returnBps_lt_iff a p1
    (show 0 ≤ a.slashThresholdBps.toNat + ⌊a.confidence p1⌋ by omega)
  rw [neg_zero] at hzero
  rw [Advice.Adverse, confidenceBps_eq, hcompare, hzero]
  omega

/-- A slash means a loss beyond the exact band. -/
theorem loss_of_adverse (h : a.Adverse p1) :
    (a.slashThresholdBps.toNat : ℚ) + a.confidence p1 < a.loss p1 := by
  have hfloor : ((a.slashThresholdBps.toNat + ⌊a.confidence p1⌋ + 1 : ℤ) : ℚ) ≤ ⌊a.loss p1⌋ :=
    Int.cast_le.mpr (adverse_iff.mp h)
  push_cast at hfloor
  calc (a.slashThresholdBps.toNat : ℚ) + a.confidence p1
      < a.slashThresholdBps.toNat + (⌊a.confidence p1⌋ + 1) :=
        add_lt_add_right (Int.lt_floor_add_one _) _
    _ ≤ ⌊a.loss p1⌋ := by rw [← add_assoc]; exact hfloor
    _ ≤ a.loss p1 := Int.floor_le _

/-- One basis point beyond the exact band there is a slash. -/
theorem adverse_of_loss
    (h : (a.slashThresholdBps.toNat : ℚ) + a.confidence p1 + 1 ≤ a.loss p1) : a.Adverse p1 := by
  rw [adverse_iff]
  have hfloor : a.slashThresholdBps.toNat + ⌊a.confidence p1⌋ + 1 ≤ ⌊a.loss p1⌋ := by
    rw [Int.le_floor]
    push_cast
    have hconf := Int.floor_le (a.confidence p1)
    linarith
  omega

/-- The return of the opposite direction. -/
theorem toInt_neg_direction {d : Int8} (h : d = 1 ∨ d = -1) : (-d).toInt = -d.toInt := by
  obtain rfl | rfl := h <;> rfl

/-- The contract reaches a verdict on every advice with a price to measure against. It slashes only
if the exact loss exceeds the threshold with the exact band, and always if it does so by one basis
point. The opposite advice has the opposite return, so a slash of one excludes a slash of the
other, whatever its threshold and band. -/
theorem verdict_sandwiched (a : Advice) (p1 : Price) (hp0 : a.p0 ≠ 0)
    (hd : a.direction = 1 ∨ a.direction = -1) :
    ∃ rBps slashed, returnBps a.p0 p1.price a.direction = .ok rBps ∧
      shouldSlash rBps a.slashThresholdBps p1.conf a.p0 = .ok slashed ∧
      verdict a p1 = .ok slashed ∧
      (slashed = true → a.slashThresholdBps.toNat + a.confidence p1 < a.loss p1) ∧
      (a.slashThresholdBps.toNat + a.confidence p1 + 1 ≤ a.loss p1 → slashed = true) ∧
      returnBps a.p0 p1.price (-a.direction) = .ok (-rBps) ∧
      ∀ threshold conf, slashed = true → shouldSlash (-rBps) threshold conf a.p0 = .ok false := by
  have hz : a.p0.toInt ≠ 0 := fun h => hp0 (Int64.toInt_inj.mp h)
  refine ⟨a.returnBps p1, decide (a.Adverse p1), returnBps_ok.mpr ⟨hz, rfl⟩,
    (shouldSlash_ok hz).mpr rfl, verdict_ok.mpr ⟨hp0, rfl⟩, ?_, ?_, returnBps_ok.mpr ⟨hz, ?_⟩, ?_⟩
  · intro hslash
    exact loss_of_adverse (of_decide_eq_true hslash)
  · intro hloss
    exact decide_eq_true (adverse_of_loss hloss)
  · rw [toInt_neg_direction hd, Advice.returnBps, neg_mul, neg_mul, Int.neg_tdiv]
  · intro threshold conf hslash
    have hadverse := (of_decide_eq_true hslash).1
    rw [shouldSlash_ok hz, eq_comm, decide_eq_false_iff_not]
    omega

namespace Demo

/-- An advice of a rise from 100. -/
def rise : Advice := { Advice.empty with direction := 1, p0 := 100, slashThresholdBps := 50 }

/-- A price that fell by a tenth. -/
def fallen : Price := ⟨90, 0, 0⟩

/-- The advice is slashed, and the opposite one would not be. -/
theorem rise_slashed : ∃ rBps, returnBps 100 90 1 = .ok rBps ∧ returnBps 100 90 (-1) = .ok (-rBps) ∧
    50 + rise.confidence fallen < rise.loss fallen ∧
    shouldSlash rBps 50 0 100 = .ok true ∧ shouldSlash (-rBps) 50 0 100 = .ok false := by
  obtain ⟨rBps, slashed, hreturn, hslash, hverdict, hloss, -, hopposite, hother⟩ :=
    verdict_sandwiched rise fallen (by decide) (.inl rfl)
  have htrue : verdict rise fallen = .ok true := by decide +kernel
  obtain rfl : slashed = true := Except.ok.inj (hverdict.symm.trans htrue)
  exact ⟨rBps, hreturn, hopposite, hloss rfl, hslash, hother 50 0 rfl⟩

end Demo

end PerformanceOracle
end Arcane
