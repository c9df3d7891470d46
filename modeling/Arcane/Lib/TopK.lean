import Mathlib.Data.List.GetD
import Mathlib.Data.List.Perm.Subperm
import Mathlib.Data.List.Range
import Mathlib.Data.List.Sort
import Mathlib.Order.Defs.LinearOrder

/-!
# The first `k` of an order

Selecting the smallest of `n` values in two steps: a partition of the positions around the `k`th,
then a sort of the first ones.

* `Partitioned`, `Sorts`: what a partition and a sort of positions give, ties in any order.
* `First`: the `k` first positions in order.
* `first_of_partition`, `first_of_all`: the two steps give them.
-/

namespace TopK

variable {K : Type} [LinearOrder K] {y : ℕ → K} {n k : ℕ} {part sub order : List ℕ}

/-- The positions below `n`, the one at place `k` where a sort puts it: none before it has a larger
value, and none after it a smaller one. -/
structure Partitioned (y : ℕ → K) (n k : ℕ) (part : List ℕ) : Prop where
  perm : part.Perm (List.range n)
  before : ∀ p ∈ part[k]?, ∀ i ∈ part.take k, y i ≤ y p
  after : ∀ p ∈ part[k]?, ∀ j ∈ part.drop (k + 1), y p ≤ y j

/-- The positions below `n`, sorted by their values. -/
structure Sorts (y : ℕ → K) (n : ℕ) (order : List ℕ) : Prop where
  perm : order.Perm (List.range n)
  sorted : order.Pairwise fun i j => y i ≤ y j

/-- The `k` positions below `n` with the smallest values, in order. -/
structure First (y : ℕ → K) (n k : ℕ) (order : List ℕ) : Prop where
  length : order.length = min k n
  nodup : order.Nodup
  lt : ∀ i ∈ order, i < n
  sorted : order.Pairwise fun i j => y i ≤ y j
  least : ∀ i ∈ order, ∀ j < n, j ∉ order → y i ≤ y j

theorem Sorts.congr {y' : ℕ → K} (hs : Sorts y n order) (h : ∀ i < n, y i = y' i) :
    Sorts y' n order where
  perm := hs.perm
  sorted := by
    have hvalue : ∀ i ∈ order, y i = y' i := fun i hi =>
      h i (List.mem_range.mp (hs.perm.mem_iff.mp hi))
    refine hs.sorted.imp_of_mem fun {i j} hi hj hle => ?_
    rwa [← hvalue i hi, ← hvalue j hj]

/-- A sort of the values of `sub` is one of its places. -/
theorem sorts_map {xs : List K} {d : K} (hs : Sorts ((sub.map (xs.getD · d)).getD · d)
    (sub.map (xs.getD · d)).length order) :
    Sorts (fun a => xs.getD (sub.getD a 0) d) sub.length order := by
  rw [List.length_map] at hs
  refine hs.congr fun a ha => ?_
  simp [ha]

/-- The places of `sub`, sorted by their values. -/
theorem first_of_sorts (hlength : sub.length = min k n) (hnodup : sub.Nodup)
    (hlt : ∀ i ∈ sub, i < n) (hleast : ∀ i ∈ sub, ∀ j < n, j ∉ sub → y i ≤ y j)
    (hs : Sorts (fun a => y (sub.getD a 0)) sub.length order) :
    First y n k (order.map (sub.getD · 0)) := by
  have hperm : (order.map (sub.getD · 0)).Perm sub := by
    have hrange : (List.range sub.length).map (sub.getD · 0) = sub := by
      apply List.ext_getElem (by simp)
      intro i hi hi'
      simp [List.getElem?_eq_getElem hi']
    have hmap := hs.perm.map (sub.getD · 0)
    rwa [hrange] at hmap
  constructor
  · rw [hperm.length_eq, hlength]
  · exact hperm.nodup_iff.mpr hnodup
  · exact fun i hi => hlt i (hperm.mem_iff.mp hi)
  · exact List.pairwise_map.mpr hs.sorted
  · exact fun i hi j hj hnot => hleast i (hperm.mem_iff.mp hi) j hj fun h =>
      hnot (hperm.mem_iff.mpr h)

/-- The first positions of a partition have the smallest values. -/
theorem Partitioned.take_le (hp : Partitioned y n k part) (hk : k < n) :
    ∀ i ∈ part.take (k + 1), ∀ j ∈ part.drop (k + 1), y i ≤ y j := by
  have hlength : k < part.length := by
    rw [hp.perm.length_eq, List.length_range]
    exact hk
  have hplace : part[k]? = some part[k] := List.getElem?_eq_getElem hlength
  intro i hi j hj
  rw [List.take_succ_eq_append_getElem hlength, List.mem_append, List.mem_singleton] at hi
  have hafter := hp.after part[k] hplace j hj
  rcases hi with hi | rfl
  · exact (hp.before part[k] hplace i hi).trans hafter
  · exact hafter

/-- A partition around place `k - 1`, and a sort of its first `k` positions. -/
theorem first_of_partition (hk : 0 < k) (hkn : k < n) (hp : Partitioned y n (k - 1) part)
    (hs : Sorts (fun a => y ((part.take k).getD a 0)) (part.take k).length order) :
    First y n k (order.map ((part.take k).getD · 0)) := by
  have hlength : part.length = n := by rw [hp.perm.length_eq, List.length_range]
  have hsucc : k - 1 + 1 = k := by omega
  have hle := hp.take_le (by omega)
  rw [hsucc] at hle
  refine first_of_sorts ?_ ?_ ?_ ?_ hs
  · rw [List.length_take, hlength]
  · exact ((hp.perm.nodup_iff).mpr List.nodup_range).sublist (List.take_sublist k part)
  · exact fun i hi => List.mem_range.mp (hp.perm.mem_iff.mp (List.mem_of_mem_take hi))
  · intro i hi j hj hnot
    have hmem : j ∈ part := hp.perm.mem_iff.mpr (List.mem_range.mpr hj)
    rw [← List.take_append_drop k part, List.mem_append] at hmem
    exact hle i hi j (hmem.resolve_left hnot)

/-- All positions, sorted. -/
theorem first_of_all (hkn : n ≤ k)
    (hs : Sorts (fun a => y ((List.range n).getD a 0)) (List.range n).length order) :
    First y n k (order.map ((List.range n).getD · 0)) := by
  refine first_of_sorts ?_ List.nodup_range (fun i => List.mem_range.mp) ?_ hs
  · rw [List.length_range, min_eq_right hkn]
  · exact fun i _ j hj hnot => absurd (List.mem_range.mpr hj) hnot

/-- The positions sorted by insertion. -/
def sortIndices (y : ℕ → K) (n : ℕ) : List ℕ :=
  (List.range n).insertionSort fun i j => y i ≤ y j

theorem sorts_sortIndices (y : ℕ → K) (n : ℕ) : Sorts y n (sortIndices y n) where
  perm := List.perm_insertionSort _ _
  sorted := by
    have : Std.Total fun i j => y i ≤ y j := ⟨fun i j => le_total (y i) (y j)⟩
    have : IsTrans ℕ fun i j => y i ≤ y j := ⟨fun _ _ _ => le_trans⟩
    exact List.pairwise_insertionSort _ _

/-- A sorted list is partitioned around every place. -/
theorem Sorts.partitioned {order : List ℕ} (hs : Sorts y n order) (k : ℕ) :
    Partitioned y n k order where
  perm := hs.perm
  before p hp i hi := by
    obtain ⟨hk, rfl⟩ := List.getElem?_eq_some_iff.mp hp
    have hcut := hs.sorted
    rw [← List.take_append_drop k order, List.pairwise_append] at hcut
    refine hcut.2.2 i hi _ ?_
    rw [List.drop_eq_getElem_cons hk]
    exact List.mem_cons_self
  after p hp j hj := by
    obtain ⟨hk, rfl⟩ := List.getElem?_eq_some_iff.mp hp
    have hcut := hs.sorted.sublist (List.drop_sublist k order)
    rw [List.drop_eq_getElem_cons hk] at hcut
    exact (List.pairwise_cons.mp hcut).1 j hj

end TopK
