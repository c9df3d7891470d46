import Arcane.Constitution.Adapters
import Mathlib.Tactic.IntervalCases

/-!
# Drift orders

What the Drift adapter reads from an instruction, and what an instruction says.

* `readU64LE_eq`, `readU16LE_eq`, `readBool_eq`: the three readers, by the bytes of their fields.
* `decode_eq`: the descriptor of any instruction of the adapter's.
* `drift_exact`: it is that of the order which the instruction encodes.
-/

namespace Arcane
namespace Constitution
namespace Adapter
namespace Drift

open Text Evm Abi

/-- The part of `OrderParams` that every order has. -/
structure OrderParams where
  orderType : UInt8
  marketType : UInt8
  direction : UInt8
  userOrderId : UInt8
  baseAssetAmount : UInt64
  price : UInt64
  marketIndex : UInt16
  reduceOnly : Bool

/-- The Borsh encoding. -/
def OrderParams.encode (o : OrderParams) : Bytes :=
  [o.orderType, o.marketType, o.direction, o.userOrderId] ++
    (toBytesLE 8 o.baseAssetAmount.toNat ++
      (toBytesLE 8 o.price.toNat ++
        (toBytesLE 2 o.marketIndex.toNat ++ [o.reduceOnly.toUInt8])))

/-- The instruction, with `rest` for the fields behind `reduce_only`. -/
def placePerpOrder (o : OrderParams) (rest : Bytes) : Bytes :=
  discriminatorFull ++ (o.encode ++ rest)

/-- The descriptor of an order. -/
def descriptor (baseAmount price marketIndex : ℕ) (reduceOnly : Bool) : Decoded where
  protocolTarget := driftProgramIdHint
  sizeUsdc := baseAmount * price / basePrecision
  leverageBps := 0
  market := ⟨BitVec.ofNat 160 marketIndex⟩
  isReduceOnly := reduceOnly

section Readers

variable {calldata data behind : Bytes} {i : ℕ}

/-- The mask of a byte keeps its bits, and the shift puts them where the byte stands from the other
end. -/
theorem getLsbD_reverseU64 (x : BitVec 64) (hi : i < 64) :
    (reverseU64 x).getLsbD i = x.getLsbD (56 - 8 * (i / 8) + i % 8) := by
  simp only [reverseU64, BitVec.getLsbD_or, BitVec.getLsbD_ushiftRight, BitVec.getLsbD_and,
    BitVec.getLsbD_shiftLeft]
  interval_cases i <;> simp

theorem getLsbD_reverseU16 (x : BitVec 16) (hi : i < 16) :
    ((x <<< 8) ||| (x >>> 8)).getLsbD i = x.getLsbD (8 - 8 * (i / 8) + i % 8) := by
  simp only [BitVec.getLsbD_or, BitVec.getLsbD_ushiftRight, BitVec.getLsbD_shiftLeft]
  interval_cases i <;> simp

theorem length_slice {n : ℕ} (h : i + n ≤ calldata.length) : (slice calldata i n).length = n := by
  rw [slice, List.length_take, List.length_drop]
  omega

/-- The bytes of a field are the number that is left of the word after the shift. -/
theorem setWidth_calldataload {k : ℕ} (hk : k ≤ 32) (h : i + k ≤ calldata.length) :
    (calldataload calldata i >>> (8 * (32 - k))).setWidth (8 * k) =
      BitVec.ofNat (8 * k) (ofBytes (slice calldata i k)) := by
  rw [← calldataload_shiftRight hk h, BitVec.ofNat_toNat]

theorem readU64LE_eq (h : i + 8 ≤ calldata.length) :
    readU64LE calldata i = ofBytesLE (slice calldata i 8) := by
  have hlen : (slice calldata i 8).length = 8 := length_slice h
  have hword : (calldataload calldata i >>> 192).setWidth 64 =
      BitVec.ofNat 64 (ofBytes (slice calldata i 8)) := setWidth_calldataload (by decide) h
  refine toNat_of_reversed (by rw [hlen]) hword fun j hj => ?_
  rw [getLsbD_reverseU64 _ hj, hlen]

theorem readU16LE_eq (h : i + 2 ≤ calldata.length) :
    (readU16LE calldata i).toNat = ofBytesLE (slice calldata i 2) := by
  have hlen : (slice calldata i 2).length = 2 := length_slice h
  have hword : (calldataload calldata i >>> 240).setWidth 16 =
      BitVec.ofNat 16 (ofBytes (slice calldata i 2)) := setWidth_calldataload (by decide) h
  refine toNat_of_reversed (by rw [hlen]) hword fun j hj => ?_
  rw [hlen]
  exact getLsbD_reverseU16 _ hj

theorem readBool_eq (h : i < calldata.length) :
    readBool calldata i = (calldata.getD i 0 != 0) := by
  have hword : (calldataload calldata i >>> 248).setWidth 8 =
      BitVec.ofNat 8 (ofBytes (slice calldata i 1)) :=
    setWidth_calldataload (k := 1) (by decide) h
  have hbyte : slice calldata i 1 = [calldata.getD i 0] := by
    rw [slice, List.take_one, List.head?_drop, List.getD_eq_getElem?_getD,
      List.getElem?_eq_getElem h]
    rfl
  have hlt := (calldata.getD i 0).toNat_lt
  rw [readBool, hword, hbyte, Bool.eq_iff_iff, bne_iff_ne, bne_iff_ne, Ne, Ne, ← BitVec.toNat_inj,
    BitVec.toNat_ofNat, ← UInt8.toNat_inj]
  simp [ofBytes]

/-- What stands behind the data is not read. -/
theorem slice_data {n : ℕ} (h : i + n ≤ data.length) :
    slice (data ++ behind) i n = slice data i n := by
  rw [slice, slice, List.drop_append_of_le_length (by omega),
    List.take_append_of_le_length (by rw [List.length_drop]; omega)]

end Readers

/-! ## Orders -/

section Orders

variable {data behind : Bytes}

/-- What the adapter reads from an instruction of its own. -/
theorem decode_eq (hlen : 31 ≤ data.length) (hdisc : discriminatorFull <+: data) :
    decode data behind = .ok (descriptor (ofBytesLE (slice data 12 8))
      (ofBytesLE (slice data 20 8)) (ofBytesLE (slice data 28 2))
      (data.getD 30 0 != 0)) := by
  have hlong : 31 ≤ (data ++ behind).length := by
    rw [List.length_append]
    omega
  have hdata : (revertIf (data.length < minLen) .malformed : Tx Error Unit) = .ok () :=
    revertIf_neg (by rw [minLen]; omega)
  have hmark : slice data 0 8 = discriminatorFull := by
    obtain ⟨rest, rfl⟩ := hdisc
    exact slice_left rfl
  have hbase : readU64LE (data ++ behind) 12 = ofBytesLE (slice data 12 8) := by
    rw [readU64LE_eq (by omega), slice_data (by omega)]
  have hprice : readU64LE (data ++ behind) 20 = ofBytesLE (slice data 20 8) := by
    rw [readU64LE_eq (by omega), slice_data (by omega)]
  have hmarket : (readU16LE (data ++ behind) 28).setWidth 160 =
      BitVec.ofNat 160 (ofBytesLE (slice data 28 2)) := by
    rw [← BitVec.ofNat_toNat, readU16LE_eq (by omega), slice_data (by omega)]
  have hreduce : readBool (data ++ behind) 30 = (data.getD 30 0 != 0) := by
    rw [readBool_eq (by omega), List.getD_append _ _ _ _ (by omega)]
  -- two 64-bit numbers: their product does not wrap
  have hbase_lt := ofBytesLE_lt (slice data 12 8)
  have hprice_lt := ofBytesLE_lt (slice data 20 8)
  rw [length_slice (by omega)] at hbase_lt hprice_lt
  have hprod : ofBytesLE (slice data 12 8) * ofBytesLE (slice data 20 8) < 2 ^ 256 :=
    (Nat.mul_lt_mul'' hbase_lt hprice_lt).trans (by decide)
  simp only [decode, hdata, hmark, revertIf_neg (not_not.mpr rfl), ok_bind, hbase, hprice, hmarket,
    hreduce, Nat.mod_eq_of_lt hprod]
  rfl

variable {o : OrderParams} {rest : Bytes}

theorem length_encode : o.encode.length = 23 := by
  simp [OrderParams.encode]

/-- The fields of an order, at their places in the instruction. -/
theorem slice_placePerpOrder (o : OrderParams) (rest : Bytes) :
    slice (placePerpOrder o rest) 12 8 = toBytesLE 8 o.baseAssetAmount.toNat ∧
    slice (placePerpOrder o rest) 20 8 = toBytesLE 8 o.price.toNat ∧
    slice (placePerpOrder o rest) 28 2 = toBytesLE 2 o.marketIndex.toNat ∧
    (placePerpOrder o rest).getD 30 0 = o.reduceOnly.toUInt8 := by
  refine ⟨?_, ?_, ?_, ?_⟩ <;>
    simp [slice, placePerpOrder, OrderParams.encode, discriminatorFull, toBytesLE]

end Orders

/-- For every instruction of the adapter's, the numbers are the little-endian ones at their places,
and whatever stands behind the 31 bytes, an encoded order is read back, its notional exact. -/
theorem drift_exact :
    (∀ data behind : Bytes, 31 ≤ data.length → discriminatorFull <+: data →
      decode data behind = .ok (descriptor (ofBytesLE (slice data 12 8))
        (ofBytesLE (slice data 20 8)) (ofBytesLE (slice data 28 2))
        (data.getD 30 0 != 0))) ∧
    ∀ (o : OrderParams) (rest behind : Bytes), ∃ dec,
      decode (placePerpOrder o rest) behind = .ok dec ∧
      dec.sizeUsdc = o.baseAssetAmount.toNat * o.price.toNat / 10 ^ 9 ∧
      dec.market.val.toNat = o.marketIndex.toNat ∧
      dec.isReduceOnly = o.reduceOnly := by
  refine ⟨fun data behind => decode_eq, fun o rest behind => ?_⟩
  have hlen : 31 ≤ (placePerpOrder o rest).length := by
    have hmark : discriminatorFull.length = 8 := rfl
    simp only [placePerpOrder, List.length_append, length_encode, hmark]
    omega
  obtain ⟨hbase, hprice, hmarket, hreduce⟩ := slice_placePerpOrder o rest
  refine ⟨_, decode_eq hlen (List.prefix_append _ _), ?_, ?_, ?_⟩
  · rw [hbase, hprice, ofBytesLE_toBytesLE o.baseAssetAmount.toNat_lt,
      ofBytesLE_toBytesLE o.price.toNat_lt]
    rfl
  · have hlt := o.marketIndex.toNat_lt
    rw [hmarket, ofBytesLE_toBytesLE hlt]
    show (BitVec.ofNat 160 o.marketIndex.toNat).toNat = _
    rw [BitVec.toNat_ofNat, Nat.mod_eq_of_lt (by omega)]
  · rw [hreduce]
    show (o.reduceOnly.toUInt8 != 0) = o.reduceOnly
    cases o.reduceOnly <;> rfl

end Drift
end Adapter
end Constitution
end Arcane
