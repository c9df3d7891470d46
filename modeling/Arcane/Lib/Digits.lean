import Arcane.Lib.Text
import Mathlib.Algebra.Ring.Nat

/-!
# Digits

What `readBase` accepts and how large it is, how many digits `natText` writes, and ASCII digits in
the eyes of the Unicode database.
-/

namespace Text

section Digits

variable {s t : Str} {n acc : ℕ}

theorem digitVal_eq_some {c : CodePoint} {d : ℕ} (h : digitVal c = some d) :
    48 ≤ c.val ∧ c.val = 48 + d ∧ d < 10 := by
  rw [digitVal] at h
  split at h
  · have := Option.some.inj h
    omega
  · exact absurd h (by simp)

/-- The first digit and the rest. -/
theorem readBase_cons {c : CodePoint} (h : readBase 10 digitVal acc (c :: s) = some n) :
    ∃ d, c.val = 48 + d ∧ d < 10 ∧ readBase 10 digitVal (10 * acc + d) s = some n := by
  obtain ⟨d, hd, h⟩ := Option.bind_eq_some_iff.mp h
  exact ⟨d, (digitVal_eq_some hd).2.1, (digitVal_eq_some hd).2.2, h⟩

theorem digits_of_readBase (h : readBase 10 digitVal acc s = some n) :
    ∀ c ∈ s, 48 ≤ c.val ∧ c.val ≤ 57 := by
  induction s generalizing acc with
  | nil => simp
  | cons c s ih =>
    obtain ⟨d, hc, hd, h⟩ := readBase_cons h
    intro x hx
    rcases List.mem_cons.mp hx with rfl | hx
    · omega
    · exact ih h x hx

theorem readBase_of_readNat (h : readNat s = some n) : readBase 10 digitVal 0 s = some n := by
  rw [readNat, readDigits] at h
  split at h
  · exact absurd h (by simp)
  · exact h

theorem readBase_lt (h : readBase 10 digitVal acc s = some n) : n < (acc + 1) * 10 ^ s.length := by
  induction s generalizing acc with
  | nil =>
    obtain rfl := Option.some.inj h
    simp
  | cons c s ih =>
    obtain ⟨d, hc, hd, h⟩ := readBase_cons h
    calc n < (10 * acc + d + 1) * 10 ^ s.length := ih h
      _ ≤ (10 * (acc + 1)) * 10 ^ s.length := Nat.mul_le_mul_right _ (by omega)
      _ = (acc + 1) * 10 ^ (s.length + 1) := by rw [Nat.pow_succ]; ac_rfl

theorem zero_iff_val {c : CodePoint} : c = ofChar '0' ↔ c.val = 48 := by
  rw [Fin.ext_iff]
  rfl

theorem readBase_eq_zero (h : readBase 10 digitVal acc s = some n) :
    n = 0 ↔ acc = 0 ∧ ∀ c ∈ s, c = ofChar '0' := by
  induction s generalizing acc with
  | nil =>
    obtain rfl := Option.some.inj h
    simp
  | cons c s ih =>
    obtain ⟨d, hc, hd, h⟩ := readBase_cons h
    rw [ih h, List.forall_mem_cons, zero_iff_val]
    constructor
    · rintro ⟨hz, hs⟩
      exact ⟨by omega, by omega, hs⟩
    · rintro ⟨hz, hv, hs⟩
      exact ⟨by omega, hs⟩

theorem natText_of_lt (h : n < 10) : natText n = [digitChar n] := by rw [natText, if_pos h]

theorem natText_inj {m : ℕ} (h : natText m = natText n) : m = n := by
  have := congrArg readNat h
  simpa using this

theorem lt_pow_length_natText (n : ℕ) : n < 10 ^ (natText n).length := by
  have := readBase_lt (readBase_natText n)
  omega

theorem length_natText_le {k : ℕ} (h : n < 10 ^ (k + 1)) : (natText n).length ≤ k + 1 := by
  induction k generalizing n with
  | zero =>
    rw [natText_of_lt (by omega)]
    simp
  | succ k ih =>
    rw [natText]
    split
    · simp
    · have := ih (n := n / 10) (by rw [Nat.pow_succ] at h; omega)
      rw [List.length_append, List.length_singleton]
      omega

theorem readBase_digit (U : Unicode) (b acc : ℕ) (h : isAscii s) :
    readBase b U.digit acc s = readBase b digitVal acc s := by
  induction s generalizing acc with
  | nil => rfl
  | cons c s ih =>
    have hc : U.digit c = digitVal c := U.digit_ascii c (h c (by simp))
    rw [readBase, readBase, hc]
    exact congrArg _ (funext fun d => ih _ fun x hx => h x (by simp [hx]))

theorem readDigits_digit (U : Unicode) (b : ℕ) (h : isAscii s) :
    readDigits b U.digit s = readDigits b digitVal s := by
  rw [readDigits, readDigits, readBase_digit U b 0 h]

end Digits

end Text
