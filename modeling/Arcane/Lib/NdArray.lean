import Mathlib.Algebra.BigOperators.Group.List.Basic
import Mathlib.Algebra.Order.Group.Nat
import Mathlib.Data.List.FinRange

/-!
# Arrays of any shape

The shape of an array, and its elements row by row.
-/

@[ext]
structure NdArray (α : Type) where
  shape : List ℕ
  data : List α
  length_data : data.length = shape.prod

namespace NdArray

variable {α : Type}

/-- The array of one dimension. -/
def ofList (l : List α) : NdArray α := ⟨[l.length], l, by simp⟩

/-- The length of `rows * inner` elements from the row `i`. -/
theorem length_slice {l : List α} {rows inner i : ℕ} (h : l.length = rows * inner) (hi : i < rows) :
    ((l.drop (i * inner)).take inner).length = inner := by
  have hmul : i * inner + inner ≤ rows * inner := by
    rw [← Nat.succ_mul]
    exact Nat.mul_le_mul_right _ hi
  rw [List.length_take, List.length_drop, h]
  omega

/-- `a[i]`, for each `i` in order; an array without dimensions has none. -/
def rows (a : NdArray α) : List (NdArray α) :=
  match h : a.shape with
  | [] => []
  | n :: inner => (List.finRange n).map fun i : Fin n =>
    ⟨inner, (a.data.drop (i.val * inner.prod)).take inner.prod,
      length_slice (by rw [a.length_data, h, List.prod_cons]) i.isLt⟩

theorem shape_of_mem_rows {a r : NdArray α} (h : r ∈ a.rows) : r.shape = a.shape.tail := by
  unfold rows at h
  split at h
  · cases h
  · next n inner hshape =>
    obtain ⟨i, -, rfl⟩ := List.mem_map.mp h
    exact (congrArg List.tail hshape).symm

/-- `np.stack` of rows of one length. -/
def stack (w : ℕ) (l : List (List α)) (h : ∀ x ∈ l, x.length = w) : NdArray α where
  shape := [l.length, w]
  data := l.flatten
  length_data := by
    have hmap : l.map List.length = l.map fun _ => w := List.map_congr_left h
    rw [List.length_flatten, hmap, List.map_const', List.sum_replicate]
    simp

theorem drop_flatten {w : ℕ} {l : List (List α)} (h : ∀ x ∈ l, x.length = w) (i : ℕ) :
    l.flatten.drop (i * w) = (l.drop i).flatten := by
  induction l generalizing i with
  | nil => simp
  | cons x l ih =>
    obtain ⟨hx, hl⟩ := List.forall_mem_cons.mp h
    cases i with
    | zero => simp
    | succ i =>
      rw [List.flatten_cons, Nat.succ_mul, Nat.add_comm, ← List.drop_drop, ← hx, List.drop_left,
        hx, ih hl, List.drop_succ_cons]

theorem rows_stack {w : ℕ} {l : List (List α)} (h : ∀ x ∈ l, x.length = w) :
    (stack w l h).rows.map (·.data) = l := by
  have hrow : ∀ i : Fin l.length,
      (l.flatten.drop (i.val * [w].prod)).take [w].prod = l.get i := by
    intro i
    have hw : (l.get i).length = w := h _ (List.get_mem l i)
    rw [List.prod_singleton, drop_flatten h, List.drop_eq_getElem_cons i.isLt, List.flatten_cons]
    exact List.take_left' hw
  calc (stack w l h).rows.map (·.data)
      = (List.finRange l.length).map fun i =>
          (l.flatten.drop (i.val * [w].prod)).take [w].prod := List.map_map
    _ = (List.finRange l.length).map l.get := List.map_congr_left fun i _ => hrow i
    _ = l := List.map_get_finRange l

theorem rows_ofList (l : List α) : (ofList l).rows.map (·.data) = l.map fun x => [x] := by
  have hrow : ∀ i : Fin l.length,
      (l.drop (i.val * [].prod)).take ([] : List ℕ).prod = [l.get i] := by
    intro i
    rw [List.prod_nil, mul_one, List.drop_eq_getElem_cons i.isLt]
    rfl
  calc (ofList l).rows.map (·.data)
      = (List.finRange l.length).map fun i =>
          (l.drop (i.val * ([] : List ℕ).prod)).take ([] : List ℕ).prod := List.map_map
    _ = (List.finRange l.length).map fun i => [l.get i] := List.map_congr_left fun i _ => hrow i
    _ = ((List.finRange l.length).map l.get).map fun x => [x] := by
      rw [List.map_map]
      rfl
    _ = l.map fun x => [x] := by rw [List.map_get_finRange]

end NdArray
