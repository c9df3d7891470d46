import Arcane.Lib.TopK
import Arcane.Memory.Exact
import Mathlib.Algebra.BigOperators.Group.Finset.Basic
import Mathlib.Algebra.Order.AbsoluteValue.Basic
import Mathlib.Data.List.GetD
import Mathlib.Tactic.IntervalCases
import Mathlib.Tactic.NormNum

/-!
# The table-driven scan, in exact arithmetic

`query` over the numbers of an ordered field: the tables that it looks the bytes of the codes up
in, and its selection of the best scores.

* `approxInner_eq`: the sum of the looked-up contributions is the inner product with the signs.
* `sign_packBits`: the signs are those that were packed.
* `Arrays`: what numpy sorts, rotates and measures; `Numerics.exact` are the numbers that go with
  it.
-/

namespace Arcane
namespace Memory

open Text Finset

/-! ## Tables -/

section Tables

variable {K : Type} [Field K]

/-- `(p >> (7 - j)) & 1`. -/
def bitAt (p : UInt8) (j : ℕ) : ℕ := (p.toNat >>> (7 - j)) &&& 1

/-- `_SIGNS_MASK`, the table of `_byte_lookup_table`. -/
def signsMask (p : UInt8) (j : ℕ) : K := bitAt p j * 2 - 1

/-- `lookup[i, p]`: what the byte `p` contributes at place `i`; the query is padded with zeros. -/
def lookup (rotated : List K) (i : ℕ) (p : UInt8) : K :=
  ∑ j ∈ range 8, rotated.getD (8 * i + j) 0 * signsMask p j

/-- `contribs.sum(axis=1)` of a code. -/
def approxInner (rotated : List K) (bits : Bytes) : K :=
  ∑ i ∈ range bits.length, lookup rotated i (bits.getD i 0)

/-- The sign that a code stores for a component. -/
def sign (bits : Bytes) (j : ℕ) : K := if bitAt (bits.getD (j / 8) 0) (j % 8) = 1 then 1 else -1

theorem bitAt_lt (p : UInt8) (j : ℕ) : bitAt p j < 2 := by
  rw [bitAt, Nat.and_one_is_mod]
  exact Nat.mod_lt _ (by decide)

theorem signsMask_eq (bits : Bytes) {i j : ℕ} (hj : j < 8) :
    signsMask (bits.getD i 0) j = (sign bits (8 * i + j) : K) := by
  have hdiv : (8 * i + j) / 8 = i := by omega
  have hmod : (8 * i + j) % 8 = j := by omega
  rw [sign, hdiv, hmod, signsMask]
  have hlt := bitAt_lt (bits.getD i 0) j
  generalize bitAt (bits.getD i 0) j = b at hlt ⊢
  interval_cases b <;> norm_num

/-- A sum over blocks of eight. -/
theorem sum_blocks (f : ℕ → K) (n : ℕ) :
    ∑ i ∈ range n, ∑ j ∈ range 8, f (8 * i + j) = ∑ j ∈ range (8 * n), f j := by
  induction n with
  | zero => rfl
  | succ n ih => rw [sum_range_succ, ih, Nat.mul_succ, sum_range_add]

/-- The looked-up contributions add up to the inner product with the signs. -/
theorem approxInner_eq {rotated : List K} {bits : Bytes} (h : rotated.length ≤ 8 * bits.length) :
    approxInner rotated bits = ∑ j ∈ range rotated.length, sign bits j * rotated.getD j 0 := by
  have hlookup : ∀ i ∈ range bits.length, lookup rotated i (bits.getD i 0) =
      ∑ j ∈ range 8, sign bits (8 * i + j) * rotated.getD (8 * i + j) 0 := by
    intro i _
    refine sum_congr rfl fun j hj => ?_
    rw [signsMask_eq bits (mem_range.mp hj), mul_comm]
  rw [approxInner, sum_congr rfl hlookup,
    sum_blocks fun j => sign bits j * rotated.getD j 0]
  -- the padding contributes nothing
  refine (sum_subset (range_subset_range.mpr h) fun j _ hj => ?_).symm
  have hlen : rotated.length ≤ j := not_lt.mp (mt mem_range.mpr hj)
  rw [List.getD_eq_default _ _ hlen, mul_zero]

/-- The bits of a byte that `np.packbits` makes. -/
theorem bitAt_packed (b : ℕ → Bool) {j : ℕ} (hj : j < 8) :
    bitAt ((List.range 8).foldl (fun p j => 2 * p + if b j then 1 else 0) 0) j = (b j).toNat := by
  have hbits : ∀ b₀ b₁ b₂ b₃ b₄ b₅ b₆ b₇ : Bool, ∀ j : Fin 8,
      bitAt ([b₀, b₁, b₂, b₃, b₄, b₅, b₆, b₇].foldl
        (fun p b => 2 * p + if b then 1 else 0) 0) j =
        ([b₀, b₁, b₂, b₃, b₄, b₅, b₆, b₇].getD j false).toNat := by
    decide +kernel
  have h := hbits (b 0) (b 1) (b 2) (b 3) (b 4) (b 5) (b 6) (b 7) ⟨j, hj⟩
  interval_cases j <;> exact h

/-- The sign of a component is the one that was packed. -/
theorem sign_npPackbits {bits : List Bool} {j : ℕ} (hj : j < bits.length) :
    sign (npPackbits bits) j = if bits.getD j false then (1 : K) else -1 := by
  have hplace : j / 8 < (bits.length + 7) / 8 := by omega
  have hindex : 8 * (j / 8) + j % 8 = j := by omega
  have hbyte : (npPackbits bits).getD (j / 8) 0 = (List.range 8).foldl (fun p i =>
      2 * p + if bits.getD (8 * (j / 8) + i) false then 1 else 0) 0 := by
    simp [npPackbits, List.getElem?_map, List.getElem?_range hplace]
  rw [sign, hbyte, bitAt_packed (fun i => bits.getD (8 * (j / 8) + i) false) (by omega), hindex]
  cases bits.getD j false <;> rfl

theorem sign_packBits {signed : List Bool} {dim j : ℕ} (hj : j < signed.length) :
    sign (packBits signed dim) j = if signed.getD j false then (1 : K) else -1 := by
  unfold packBits
  split
  · rw [sign_npPackbits (by rw [List.length_append]; omega), List.getD_append _ _ _ _ hj]
  · exact sign_npPackbits hj

end Tables

/-! ## numpy -/

/-- What is taken from numpy and `math`, on numbers that are not rounded. -/
structure Arrays (K : Type) [Field K] [LinearOrder K] where
  exp : K → K
  /-- `np.linalg.norm`. -/
  norm : List K → K
  /-- The product with `_build_rotation(dim, seed).T`. -/
  rotate : ℕ → ℕ → List K → List K
  length_rotate : ∀ dim seed v, v.length = dim → (rotate dim seed v).length = dim
  /-- `np.argpartition`, which raises `ValueError` on a place that is not there; a negative one
  counts from the end. -/
  argpartition : List K → ℤ → Option (List ℕ)
  argpartition_some : ∀ xs k part, argpartition xs k = some part →
    part.Perm (List.range xs.length)
  argpartition_isSome : ∀ xs (k : ℕ), k < xs.length → (argpartition xs k).isSome
  partitioned_argpartition : ∀ xs (k : ℕ) part, argpartition xs k = some part →
    TopK.Partitioned (xs.getD · 0) xs.length k part
  /-- `np.argsort`. -/
  argsort : List K → List ℕ
  sorts_argsort : ∀ xs, TopK.Sorts (xs.getD · 0) xs.length (argsort xs)

section Scan

variable {K : Type} [Field K] [LinearOrder K]

/-- The number, where it is finite. -/
def number : Double K → K
  | .finite x => x
  | _ => 0

/-- `l[:k]`. -/
def sliceTo {α : Type} (l : List α) (k : ℤ) : List α :=
  l.take (if 0 ≤ k then k else l.length + k).toNat

/-- The scores from the rotated query, of the code, `l1` and weight of each entry. -/
def scored (rotated : List K) (rows : List (Bytes × Double K × Double K)) : List (Double K) :=
  rows.map fun (bits, l1, weight) =>
    let l1Safe := if 0 < number l1 then number l1 else 1
    .finite (approxInner rotated bits / l1Safe * number weight)

/-- The positions of the best scores, in order. -/
def Arrays.top (A : Arrays K) (scores : List (Double K)) (k : ℤ) : Option (List ℕ) :=
  let negated := scores.map fun x => -number x
  let n := negated.length
  let kk := min k n
  let top := if kk < n then (A.argpartition negated (kk - 1)).map (sliceTo · kk)
    else some (List.range n)
  top.map fun top => (A.argsort (top.map (negated.getD · 0))).map (top.getD · 0)

theorem mem_of_mem_sliceTo {α : Type} {l : List α} {k : ℤ} {x : α} (h : x ∈ sliceTo l k) :
    x ∈ l := List.mem_of_mem_take h

theorem Arrays.lt_of_mem_top {A : Arrays K} {scores : List (Double K)} {k : ℤ} {is : List ℕ}
    (h : A.top scores k = some is) : ∀ i ∈ is, i < scores.length := by
  unfold Arrays.top at h
  obtain ⟨top, htop, rfl⟩ := Option.map_eq_some_iff.mp h
  rw [List.length_map] at htop
  have hlt : ∀ j ∈ top, j < scores.length := by
    intro j hj
    split at htop
    · obtain ⟨part, hpart, rfl⟩ := Option.map_eq_some_iff.mp htop
      have hperm := A.argpartition_some _ _ _ hpart
      rw [List.length_map] at hperm
      exact List.mem_range.mp (hperm.mem_iff.mp (mem_of_mem_sliceTo hj))
    · cases htop
      exact List.mem_range.mp hj
  intro i hi
  obtain ⟨a, ha, rfl⟩ := List.mem_map.mp hi
  have hplace := (A.sorts_argsort _).perm.mem_iff.mp ha
  rw [List.mem_range, List.length_map] at hplace
  rw [List.getD_eq_getElem _ _ hplace]
  exact hlt _ (List.getElem_mem hplace)

theorem sliceTo_natCast {α : Type} (l : List α) (k : ℕ) : sliceTo l k = l.take k := by
  rw [sliceTo, if_pos (Int.natCast_nonneg k), Int.toNat_natCast]

/-- The best `k` scores are selected, or all there are. -/
theorem Arrays.first_top {A : Arrays K} (scores : List (Double K)) {k : ℕ} (hk : 0 < k) :
    ∃ is, A.top scores k = some is ∧
      TopK.First (fun i => -number (scores.getD i (.finite 0))) scores.length k is := by
  have hvalue : (fun i => -number (scores.getD i (.finite 0))) =
      ((scores.map fun x => -number x).getD · 0) := by
    funext i
    have hmap : (scores.map fun x => -number x).getD i (-number (.finite 0)) =
        -number (scores.getD i (.finite 0)) := List.getD_map ..
    rw [← hmap]
    exact congrArg _ neg_zero
  have hlength : (scores.map fun x => -number x).length = scores.length := List.length_map _
  rw [hvalue, ← hlength, Arrays.top]
  generalize (scores.map fun x => -number x) = negated
  by_cases hkn : k < negated.length
  · have hmin : min (k : ℤ) negated.length = k := min_eq_left (by omega)
    have hlast : (k : ℤ) - 1 = ((k - 1 : ℕ) : ℤ) := by omega
    obtain ⟨part, hpart⟩ := Option.isSome_iff_exists.mp
      (A.argpartition_isSome negated (k - 1) (by omega))
    have hp := A.partitioned_argpartition negated (k - 1) part hpart
    have hs := A.sorts_argsort ((part.take k).map (negated.getD · 0))
    refine ⟨_, ?_, TopK.first_of_partition hk hkn hp (TopK.sorts_map hs)⟩
    simp only [hmin, if_pos (Int.ofNat_lt.mpr hkn), hlast, hpart, Option.map_some,
      sliceTo_natCast]
  · have hmin : min (k : ℤ) negated.length = negated.length := min_eq_right (by omega)
    refine ⟨_, ?_, TopK.first_of_all (not_lt.mp hkn) (TopK.sorts_map (A.sorts_argsort _))⟩
    simp only [hmin, lt_irrefl, if_false, Option.map_some]

/-- The numbers of an ordered field, with nothing rounded. -/
def Numerics.exact (A : Arrays K) : Numerics K K where
  single := number
  double := .finite
  single_double _ := rfl
  quot a b := .finite (a / b)
  add := onFinite (· + ·)
  sub := onFinite (· - ·)
  div := onFinite (· / ·)
  mul := onFinite (· * ·)
  neg := onFinite (fun _ x => -x) (.finite 0)
  lt := ofFinite fun x y => decide (x < y)
  le := ofFinite fun x y => decide (x ≤ y)
  exp x := some (onFinite (fun _ x => A.exp x) (.finite 0) x)
  subE := (· - ·)
  divE x y := x / number y
  nonneg x := decide (0 ≤ x)
  norm v := .finite (A.norm v)
  isZero x := decide (number x = 0)
  l1 v := .finite (v.map abs).sum
  rotate := A.rotate
  length_rotate := A.length_rotate
  scan := scored
  length_scan _ _ := List.length_map _
  top := A.top
  top_isSome scores k hk := by
    obtain ⟨n, rfl⟩ := Int.eq_ofNat_of_zero_le hk.le
    obtain ⟨is, his, -⟩ := Arrays.first_top (A := A) scores (Int.ofNat_lt.mp hk)
    exact Option.isSome_of_eq_some his
  lt_of_mem_top _ _ _ h := Arrays.lt_of_mem_top h

theorem Numerics.exact_exact (A : Arrays K) : (exact A).Exact where
  quot _ _ _ := rfl
  add _ _ := rfl
  sub _ _ := rfl
  mul _ _ := rfl
  div _ _ _ := rfl
  neg _ := rfl
  lt _ _ := decide_eq_true_iff
  le _ _ := decide_eq_true_iff

end Scan

end Memory
end Arcane
