import Arcane.Lib.Evm
import Arcane.Lib.Utf8

/-!
# The contract ABI

Byte strings of 32-byte words, as Solidity's decoder reads them (`none` is its revert) and as
`abi.encode` writes them. Positions and offsets are counted from the first byte after the selector.

* `wordAt`, `addressAt`, `bytes32At`, `boolAt`: static values.
* `sizeAt`: a length or an offset, which must fit in 64 bits; `bytesAt`, `arrayAt`: values of
  dynamic length.
* `word`, `addressWord`, `bytes`, `array`, `addresses`: the encodings, each with what its decoder
  makes of it.
-/

namespace Abi

open Text Evm

abbrev Bytes32 := BitVec 256

/-- The number that bytes write, the first the highest. -/
def ofBytes (b : Bytes) : ℕ := b.foldl (fun n x => 256 * n + x.toNat) 0

/-- The last `k` bytes of a number. -/
def toBytes : ℕ → ℕ → Bytes
  | 0, _ => []
  | k + 1, n => toBytes k (n / 256) ++ [UInt8.ofNat n]

section Numbers

theorem ofBytes_concat (b : Bytes) (x : UInt8) :
    ofBytes (b ++ [x]) = 256 * ofBytes b + x.toNat := by
  rw [ofBytes, List.foldl_append]
  rfl

@[simp]
theorem length_toBytes (k n : ℕ) : (toBytes k n).length = k := by
  induction k generalizing n with
  | zero => rfl
  | succ k ih => rw [toBytes, List.length_append, ih, List.length_singleton]

theorem ofBytes_lt (b : Bytes) : ofBytes b < 256 ^ b.length := by
  induction b using List.reverseRecOn with
  | nil => decide
  | append_singleton b x ih =>
    have hx := x.toNat_lt
    rw [ofBytes_concat, List.length_append, List.length_singleton, pow_succ]
    omega

/-- A number that fits is read back. -/
theorem ofBytes_toBytes {k n : ℕ} (h : n < 256 ^ k) : ofBytes (toBytes k n) = n := by
  induction k generalizing n with
  | zero =>
    rw [pow_zero, Nat.lt_one_iff] at h
    rw [h]
    rfl
  | succ k ih =>
    have hdiv : n / 256 < 256 ^ k := by
      rw [Nat.div_lt_iff_lt_mul (by decide), ← pow_succ]
      exact h
    rw [toBytes, ofBytes_concat, ih hdiv, UInt8.toNat_ofNat']
    omega

end Numbers

/-! ## Decoding -/

/-- `n` bytes from position `i` on. -/
def slice (b : Bytes) (i n : ℕ) : Bytes := (b.drop i).take n

/-- The word at position `i`. -/
def wordAt (b : Bytes) (i : ℕ) : Option ℕ :=
  if i + 32 ≤ b.length then some (ofBytes (slice b i 32)) else none

def bytes32At (b : Bytes) (i : ℕ) : Option Bytes32 := (wordAt b i).map (BitVec.ofNat 256)

/-- The address at position `i`; the 12 bytes before it are zero. -/
def addressAt (b : Bytes) (i : ℕ) : Option Address :=
  (wordAt b i).bind fun w => if w < 2 ^ 160 then some ⟨BitVec.ofNat 160 w⟩ else none

/-- An offset or a length. -/
def sizeAt (b : Bytes) (i : ℕ) : Option ℕ :=
  (wordAt b i).bind fun w => if w < 2 ^ 64 then some w else none

/-- The `bool` at position `i`. -/
def boolAt (b : Bytes) (i : ℕ) : Option Bool :=
  (wordAt b i).bind fun w => if w < 2 then some (w = 1) else none

/-- The `bytes` whose length stands at position `i`; their padding is not read. -/
def bytesAt (b : Bytes) (i : ℕ) : Option Bytes :=
  (sizeAt b i).bind fun n => if i + 32 + n ≤ b.length then some (slice b (i + 32) n) else none

/-- The array whose length stands at position `i`. `item` reads an item from the position where the
items begin and that of its own word, which is the item or its offset from there. -/
def arrayAt {α : Type} (item : ℕ → ℕ → Option α) (b : Bytes) (i : ℕ) : Option (List α) :=
  (sizeAt b i).bind fun n =>
    if i + 32 + 32 * n ≤ b.length then
      (List.range n).mapM fun j => item (i + 32) (i + 32 + 32 * j)
    else none

/-! ## Encoding -/

def word (n : ℕ) : Bytes := toBytes 32 n

def addressWord (a : Address) : Bytes := word a.val.toNat

def bytes32 (w : Bytes32) : Bytes := word w.toNat

/-- The zeros that fill the last word. -/
def padding (n : ℕ) : Bytes := List.replicate ((32 - n % 32) % 32) 0

/-- The length, and the padded bytes. -/
def bytes (b : Bytes) : Bytes := word b.length ++ (b ++ padding b.length)

/-- An array of items of dynamic length, each at its offset. -/
def array (items : List Bytes) : Bytes :=
  word items.length ++
    (offsets (32 * items.length) items ++ items.flatten)
where
  offsets : ℕ → List Bytes → Bytes
    | _, [] => []
    | o, item :: items => word o ++ offsets (o + item.length) items

/-- An array of addresses. -/
def addresses (as : List Address) : Bytes := word as.length ++ (as.map addressWord).flatten

/-- `abi.encodePacked` of an address. -/
def packedAddress (a : Address) : Bytes := toBytes 20 a.val.toNat

section RoundTrip

variable {a b r : Bytes} {i n : ℕ}

@[simp]
theorem length_word (n : ℕ) : (word n).length = 32 := length_toBytes 32 n

@[simp]
theorem length_addressWord (a : Address) : (addressWord a).length = 32 := length_word _

@[simp]
theorem length_bytes32 (w : Bytes32) : (bytes32 w).length = 32 := length_word _

@[simp]
theorem length_packedAddress (a : Address) : (packedAddress a).length = 20 := length_toBytes 20 _

@[simp]
theorem ofBytes_packedAddress (a : Address) : ofBytes (packedAddress a) = a.val.toNat :=
  ofBytes_toBytes (lt_of_lt_of_eq a.val.isLt (by decide))

/-- What stands after a prefix is at its place in the rest. -/
theorem slice_append (h : a.length ≤ i) : slice (a ++ b) i n = slice b (i - a.length) n := by
  rw [slice, slice, List.drop_append, List.drop_eq_nil_of_le h, List.nil_append]

theorem slice_left (h : a.length = n) : slice (a ++ b) 0 n = a := by
  rw [slice, List.drop_zero, List.take_append_of_le_length h.ge, List.take_of_length_le h.le]

theorem wordAt_append (h : a.length ≤ i) : wordAt (a ++ b) i = wordAt b (i - a.length) := by
  have hlen : i + 32 ≤ (a ++ b).length ↔ i - a.length + 32 ≤ b.length := by
    rw [List.length_append]
    omega
  simp only [wordAt, hlen, slice_append h]

theorem wordAt_lt (h : wordAt b i = some n) : n < 2 ^ 256 := by
  obtain ⟨hlen, rfl⟩ : i + 32 ≤ b.length ∧ ofBytes (slice b i 32) = n := by
    rw [wordAt] at h
    split at h
    · next hlen => exact ⟨hlen, Option.some.inj h⟩
    · cases h
  have hslice : (slice b i 32).length = 32 := by
    rw [slice, List.length_take, List.length_drop]
    omega
  have hlt := ofBytes_lt (slice b i 32)
  rw [hslice] at hlt
  omega

theorem sizeAt_append (h : a.length ≤ i) : sizeAt (a ++ b) i = sizeAt b (i - a.length) := by
  rw [sizeAt, sizeAt, wordAt_append h]

theorem addressAt_append (h : a.length ≤ i) :
    addressAt (a ++ b) i = addressAt b (i - a.length) := by
  rw [addressAt, addressAt, wordAt_append h]

theorem bytes32At_append (h : a.length ≤ i) :
    bytes32At (a ++ b) i = bytes32At b (i - a.length) := by
  rw [bytes32At, bytes32At, wordAt_append h]

theorem boolAt_append (h : a.length ≤ i) : boolAt (a ++ b) i = boolAt b (i - a.length) := by
  rw [boolAt, boolAt, wordAt_append h]

theorem bytesAt_append (h : a.length ≤ i) : bytesAt (a ++ b) i = bytesAt b (i - a.length) := by
  have hlen (n : ℕ) : i + 32 + n ≤ (a ++ b).length ↔ i - a.length + 32 + n ≤ b.length := by
    rw [List.length_append]
    omega
  have hle : a.length ≤ i + 32 := by omega
  have hsub : i + 32 - a.length = i - a.length + 32 := by omega
  simp only [bytesAt, sizeAt_append h, hlen, slice_append hle, hsub]

theorem wordAt_word (h : n < 2 ^ 256) : wordAt (word n ++ r) 0 = some n := by
  have hlen : 0 + 32 ≤ (word n ++ r).length := by
    rw [List.length_append, length_word]
    omega
  rw [wordAt, if_pos hlen, slice_left (length_word n), word, ofBytes_toBytes (by omega)]

theorem sizeAt_word (h : n < 2 ^ 64) : sizeAt (word n ++ r) 0 = some n := by
  rw [sizeAt, wordAt_word (by omega), Option.bind_some, if_pos h]

theorem addressAt_addressWord (a : Address) : addressAt (addressWord a ++ r) 0 = some a := by
  have h := a.val.isLt
  rw [addressAt, addressWord, wordAt_word (by omega), Option.bind_some, if_pos h]
  simp

theorem bytes32At_bytes32 (w : Bytes32) : bytes32At (bytes32 w ++ r) 0 = some w := by
  rw [bytes32At, bytes32, wordAt_word w.isLt, Option.map_some]
  simp

theorem bytes32At_bytes32_end (w : Bytes32) : bytes32At (bytes32 w) 0 = some w := by
  have hread := bytes32At_bytes32 (r := []) w
  rwa [List.append_nil] at hread

theorem boolAt_word (c : Bool) : boolAt (word c.toNat ++ r) 0 = some c := by
  have h : c.toNat < 2 := Bool.toNat_lt c
  rw [boolAt, wordAt_word (by omega), Option.bind_some, if_pos h]
  cases c <;> rfl

theorem bytesAt_bytes (h : b.length < 2 ^ 64) : bytesAt (bytes b ++ r) 0 = some b := by
  have hlen : 0 + 32 + b.length ≤ (word b.length ++ ((b ++ padding b.length) ++ r)).length := by
    simp only [List.length_append, length_word]
    omega
  rw [bytes, List.append_assoc, bytesAt, sizeAt_word h, Option.bind_some, if_pos hlen,
    slice_append (by rw [length_word]), length_word, List.append_assoc]
  simp [slice_left]

theorem bytesAt_bytes_end {b : Bytes} (h : b.length < 2 ^ 64) : bytesAt (bytes b) 0 = some b := by
  have hread := bytesAt_bytes (r := []) h
  rwa [List.append_nil] at hread

theorem length_flatten_addressWord (as : List Address) :
    (as.map addressWord).flatten.length = 32 * as.length := by
  induction as with
  | nil => rfl
  | cons a as ih =>
    rw [List.map_cons, List.flatten_cons, List.length_append, ih, length_addressWord,
      List.length_cons]
    omega

/-- The `j`-th of the addresses that begin at position `i`. -/
theorem addressAt_flatten {as : List Address} {j : ℕ} (hj : j < as.length) :
    addressAt (a ++ (as.map addressWord).flatten) (a.length + 32 * j) = some as[j] := by
  induction as generalizing a j with
  | nil => exact absurd hj (by simp)
  | cons x as ih =>
    rw [List.map_cons, List.flatten_cons]
    cases j with
    | zero =>
      rw [addressAt_append (by omega), show a.length + 32 * 0 - a.length = 0 by omega,
        addressAt_addressWord]
      rfl
    | succ j =>
      rw [← List.append_assoc]
      have hlen : (a ++ addressWord x).length = a.length + 32 := by
        rw [List.length_append, length_addressWord]
      have h := ih (a := a ++ addressWord x) (Nat.lt_of_succ_lt_succ hj)
      rw [hlen] at h
      rw [show a.length + 32 * (j + 1) = a.length + 32 + 32 * j by omega, h]
      rfl

theorem mapM_range {α : Type} {f : ℕ → Option α} {l : List α}
    (h : ∀ j (hj : j < l.length), f j = some l[j]) : (List.range l.length).mapM f = some l := by
  induction l using List.reverseRecOn with
  | nil => rfl
  | append_singleton l x ih =>
    have hinit : (List.range l.length).mapM f = some l := ih fun j hj => by
      rw [h j (by rw [List.length_append]; omega), List.getElem_append_left hj]
    have hlast : f l.length = some x := by
      rw [h l.length (by simp)]
      simp
    rw [List.length_append, List.length_singleton, List.range_succ, List.mapM_append, hinit]
    simp [hlast]

theorem arrayAt_addresses {as : List Address} (h : as.length < 2 ^ 64) :
    arrayAt (fun _ j => addressAt (a ++ addresses as) j) (a ++ addresses as) a.length =
      some as := by
  have hsize : sizeAt (a ++ addresses as) a.length = some as.length := by
    rw [sizeAt_append (le_refl _), Nat.sub_self, addresses, sizeAt_word h]
  have hlen : a.length + 32 + 32 * as.length ≤ (a ++ addresses as).length := by
    rw [addresses, List.length_append, List.length_append, length_word, length_flatten_addressWord]
    omega
  rw [arrayAt, hsize, Option.bind_some, if_pos hlen]
  refine mapM_range fun j hj => ?_
  have hread := addressAt_flatten (a := a ++ word as.length) hj
  rw [List.length_append, length_word, List.append_assoc] at hread
  exact hread

end RoundTrip

end Abi
