import Arcane.Lib.Abi
import Mathlib.Data.Nat.Bitwise
import Mathlib.Tactic.Ring

/-!
# Little-endian numbers

Numbers as bytes with the lowest first, and the ones that a machine of the other byte order reads.

* `ofBytesLE`, `toBytesLE`: the number that bytes write, and the bytes of a number.
* `calldataload`: a word from anywhere in the calldata; its high bytes stand at its position.
* `testBit_ofBytes`: a bit of a number is a bit of one of its bytes.
* `toNat_of_reversed`: a word with its bytes reversed is the little-endian reading.
-/

namespace Abi

open Text

/-- The number that bytes write, the first the lowest. -/
def ofBytesLE (b : Bytes) : ℕ := b.foldr (fun x n => x.toNat + 256 * n) 0

/-- The first `k` bytes of a number. -/
def toBytesLE : ℕ → ℕ → Bytes
  | 0, _ => []
  | k + 1, n => UInt8.ofNat n :: toBytesLE k (n / 256)

@[simp]
theorem length_toBytesLE (k n : ℕ) : (toBytesLE k n).length = k := by
  induction k generalizing n with
  | zero => rfl
  | succ k ih => rw [toBytesLE, List.length_cons, ih]

theorem ofBytesLE_cons (x : UInt8) (b : Bytes) :
    ofBytesLE (x :: b) = x.toNat + 256 * ofBytesLE b := rfl

/-- Read from the other end, a number is big-endian. -/
theorem ofBytes_reverse (b : Bytes) : ofBytes b.reverse = ofBytesLE b := by
  induction b with
  | nil => rfl
  | cons x b ih =>
    rw [List.reverse_cons, ofBytes_concat, ih, ofBytesLE_cons]
    omega

theorem ofBytesLE_lt (b : Bytes) : ofBytesLE b < 256 ^ b.length := by
  rw [← ofBytes_reverse]
  exact (ofBytes_lt b.reverse).trans_eq (by rw [List.length_reverse])

/-- A number that fits is read back. -/
theorem ofBytesLE_toBytesLE {k n : ℕ} (h : n < 256 ^ k) : ofBytesLE (toBytesLE k n) = n := by
  induction k generalizing n with
  | zero =>
    rw [pow_zero, Nat.lt_one_iff] at h
    rw [h]
    rfl
  | succ k ih =>
    have hdiv : n / 256 < 256 ^ k := by
      rw [Nat.div_lt_iff_lt_mul (by decide), ← pow_succ]
      exact h
    rw [toBytesLE, ofBytesLE_cons, ih hdiv, UInt8.toNat_ofNat']
    omega

/-- What stands in front counts for the higher digits. -/
theorem ofBytes_append (a b : Bytes) :
    ofBytes (a ++ b) = ofBytes a * 256 ^ b.length + ofBytes b := by
  induction b using List.reverseRecOn with
  | nil => simp [ofBytes]
  | append_singleton b x ih =>
    rw [← List.append_assoc, ofBytes_concat, ofBytes_concat, ih, List.length_append,
      List.length_singleton, pow_succ]
    ring

/-! ## Words -/

/-- `calldataload(i)`: the 32 bytes from position `i` on, with zeros for those that are missing. -/
def calldataload (calldata : Bytes) (i : ℕ) : BitVec 256 :=
  BitVec.ofNat 256 (ofBytes (slice (calldata ++ List.replicate 32 0) i 32))

/-- The first `k` bytes of a loaded word. -/
theorem calldataload_shiftRight {calldata : Bytes} {i k : ℕ} (hk : k ≤ 32)
    (hi : i + k ≤ calldata.length) :
    (calldataload calldata i >>> (8 * (32 - k))).toNat = ofBytes (slice calldata i k) := by
  have hlen : (slice (calldata ++ List.replicate 32 0) i 32).length = 32 := by
    simp [slice]
    omega
  have hfirst : (slice (calldata ++ List.replicate 32 0) i 32).take k = slice calldata i k := by
    rw [slice, slice, List.take_take, Nat.min_eq_left hk, List.drop_append_of_le_length (by omega),
      List.take_append_of_le_length (by rw [List.length_drop]; omega)]
  have hrest : ((slice (calldata ++ List.replicate 32 0) i 32).drop k).length = 32 - k := by
    rw [List.length_drop, hlen]
  have hlt := ofBytes_lt (slice (calldata ++ List.replicate 32 0) i 32)
  rw [hlen] at hlt
  rw [calldataload, BitVec.toNat_ushiftRight, BitVec.toNat_ofNat, Nat.mod_eq_of_lt (by omega),
    Nat.shiftRight_eq_div_pow, pow_mul,
    ← List.take_append_drop k (slice (calldata ++ List.replicate 32 0) i 32), hfirst,
    ofBytes_append, hrest]
  have hlow := ofBytes_lt ((slice (calldata ++ List.replicate 32 0) i 32).drop k)
  rw [hrest] at hlow
  exact Nat.div_eq_of_lt_le (Nat.le_add_right _ _)
    (by rw [Nat.add_mul, one_mul]; exact Nat.add_lt_add_left hlow _)

/-! ## Byte order -/

/-- Bit `i` of a number is a bit of byte `i / 8` from its end. -/
theorem testBit_ofBytes (b : Bytes) (i : ℕ) :
    (ofBytes b).testBit i = (b.reverse.getD (i / 8) 0).toNat.testBit (i % 8) := by
  induction b using List.reverseRecOn generalizing i with
  | nil => simp [ofBytes]
  | append_singleton b x ih =>
    have hx : x.toNat < 2 ^ 8 := x.toNat_lt
    have hpow : 256 * ofBytes b + x.toNat = 2 ^ 8 * ofBytes b + x.toNat := rfl
    rw [ofBytes_concat, hpow, Nat.testBit_two_pow_mul_add _ hx, List.reverse_append,
      List.reverse_singleton, List.singleton_append]
    split
    · next hi =>
      rw [Nat.div_eq_of_lt hi, Nat.mod_eq_of_lt hi]
      rfl
    · next hi =>
      have hdiv : i / 8 = (i - 8) / 8 + 1 := by omega
      have hmod : i % 8 = (i - 8) % 8 := by omega
      rw [ih, hdiv, hmod, List.getD_cons_succ]

theorem testBit_ofBytesLE (b : Bytes) (i : ℕ) :
    (ofBytesLE b).testBit i = (b.getD (i / 8) 0).toNat.testBit (i % 8) := by
  rw [← ofBytes_reverse, testBit_ofBytes, List.reverse_reverse]

/-- A word whose bits are those of `x` with the bytes in reverse order reads the bytes of `x` as a
little-endian number. -/
theorem toNat_of_reversed {w : ℕ} {x y : BitVec w} {b : Bytes} (hw : w = 8 * b.length)
    (hx : x = BitVec.ofNat w (ofBytes b))
    (h : ∀ i < w, y.getLsbD i = x.getLsbD (8 * (b.length - 1) - 8 * (i / 8) + i % 8)) :
    y.toNat = ofBytesLE b := by
  apply Nat.eq_of_testBit_eq
  intro i
  rw [BitVec.testBit_toNat]
  by_cases hi : i < w
  · have hidx : 8 * (b.length - 1) - 8 * (i / 8) + i % 8 < w := by omega
    have hdiv : (8 * (b.length - 1) - 8 * (i / 8) + i % 8) / 8 = b.length - 1 - i / 8 := by omega
    have hmod : (8 * (b.length - 1) - 8 * (i / 8) + i % 8) % 8 = i % 8 := by omega
    have hrev : b.reverse.getD (b.length - 1 - i / 8) 0 = b.getD (i / 8) 0 := by
      rw [List.getD_eq_getElem?_getD, List.getD_eq_getElem?_getD, List.getElem?_reverse (by omega)]
      congr 2
      omega
    rw [h i hi, hx, BitVec.getLsbD_ofNat, decide_eq_true hidx, Bool.true_and, testBit_ofBytes, hdiv,
      hmod, hrev, testBit_ofBytesLE]
  · have hnone : b.getD (i / 8) 0 = 0 := by
      rw [List.getD_eq_getElem?_getD, List.getElem?_eq_none (by omega)]
      rfl
    rw [BitVec.getLsbD_of_ge y i (by omega), testBit_ofBytesLE, hnone]
    exact (Nat.zero_testBit _).symm

end Abi
