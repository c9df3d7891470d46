import Mathlib.Data.List.Sort
import Mathlib.Order.Defs.LinearOrder

/-!
# Sorting by several keys

`thenBy r s` compares by `r`, and by `s` what `r` finds equal. The comparisons need to be total
preorders only on the elements that are sorted (`TotalOn`): numbers among floating point values. A
stable sort is one by the places of the elements at last (`pairwise_mergeSort_stable`).
-/

namespace SortKey

variable {α β : Type} {p : α → Prop} {r s : α → α → Prop}

/-- A total preorder on the elements of `p`. -/
structure TotalOn (p : α → Prop) (r : α → α → Prop) : Prop where
  trans : ∀ a b c, p a → p b → p c → r a b → r b c → r a c
  total : ∀ a b, p a → p b → r a b ∨ r b a

/-- `r`, and `s` between equals. -/
def thenBy (r s : α → α → Prop) (a b : α) : Prop := r a b ∧ (r b a → s a b)

theorem TotalOn.thenBy (hr : TotalOn p r) (hs : TotalOn p s) : TotalOn p (thenBy r s) where
  trans := by
    rintro a b c ha hb hc ⟨hab, hab'⟩ ⟨hbc, hbc'⟩
    refine ⟨hr.trans a b c ha hb hc hab hbc, fun hca => ?_⟩
    exact hs.trans a b c ha hb hc (hab' (hr.trans b c a hb hc ha hbc hca))
      (hbc' (hr.trans c a b hc ha hb hca hab))
  total := by
    intro a b ha hb
    by_cases hab : r a b
    · by_cases hba : r b a
      · exact (hs.total a b ha hb).imp (fun h => ⟨hab, fun _ => h⟩) fun h => ⟨hba, fun _ => h⟩
      · exact .inl ⟨hab, fun h => absurd h hba⟩
    · have hba : r b a := (hr.total a b ha hb).resolve_left hab
      exact .inr ⟨hba, fun h => absurd h hab⟩

/-- A comparison of keys. -/
theorem TotalOn.comap {q : β → Prop} {t : β → β → Prop} (h : TotalOn q t) {key : α → β}
    (hkey : ∀ a, p a → q (key a)) : TotalOn p fun a b => t (key a) (key b) where
  trans a b c ha hb hc := h.trans _ _ _ (hkey a ha) (hkey b hb) (hkey c hc)
  total a b ha hb := h.total _ _ (hkey a ha) (hkey b hb)

theorem totalOn_le [LinearOrder α] : TotalOn p fun a b : α => a ≤ b where
  trans _ _ _ _ _ _ := le_trans
  total a b _ _ := le_total a b

theorem TotalOn.flip (h : TotalOn p r) : TotalOn p fun a b => r b a where
  trans a b c ha hb hc hab hbc := h.trans c b a hc hb ha hbc hab
  total a b ha hb := h.total b a hb ha

/-- What a sort by a comparison makes of elements of `p`. -/
theorem TotalOn.pairwise_mergeSort (h : TotalOn p r) {le : α → α → Bool}
    (hle : ∀ a b, p a → p b → (le a b = true ↔ r a b)) {l : List α} (hl : ∀ a ∈ l, p a) :
    (l.mergeSort le).Pairwise r := by
  have hsub : (l.attachWith p hl).map Subtype.val = l := List.attachWith_map_subtype_val hl
  have hsorted : ((l.attachWith p hl).mergeSort fun a b => le a.val b.val).Pairwise
      fun a b => le a.val b.val = true := by
    apply List.pairwise_mergeSort
    · intro a b c hab hbc
      rw [hle _ _ a.2 b.2] at hab
      rw [hle _ _ b.2 c.2] at hbc
      rw [hle _ _ a.2 c.2]
      exact h.trans _ _ _ a.2 b.2 c.2 hab hbc
    · intro a b
      rw [Bool.or_eq_true, hle _ _ a.2 b.2, hle _ _ b.2 a.2]
      exact h.total _ _ a.2 b.2
  have hmap : ((l.attachWith p hl).mergeSort fun a b => le a.val b.val).map Subtype.val =
      l.mergeSort le := by
    rw [List.map_mergeSort (s := le) fun _ _ _ _ => rfl, hsub]
  rw [← hmap, List.pairwise_map]
  exact hsorted.imp fun {a b} hab => (hle _ _ a.2 b.2).mp hab

/-- A stable sort leaves equals in the order in which they stood. -/
theorem pairwise_mergeSort_stable {le : α → α → Bool} (htrans : ∀ a b c, le a b → le b c → le a c)
    (htotal : ∀ a b, le a b || le b a) {l : List α} (h : l.Pairwise r) :
    (l.mergeSort le).Pairwise (thenBy (fun a b => le a b = true) r) := by
  have hperm := List.mergeSort_perm l.zipIdx (List.zipIdxLE le)
  have hplaces : ((l.zipIdx.mergeSort (List.zipIdxLE le)).map Prod.snd).Nodup := by
    rw [(hperm.map Prod.snd).nodup_iff, List.zipIdx_map_snd]
    exact List.nodup_range'
  have hsorted := List.pairwise_mergeSort (List.zipIdxLE_trans htrans) (List.zipIdxLE_total htotal)
    l.zipIdx
  rw [List.nodup_iff_pairwise_ne, List.pairwise_map] at hplaces
  rw [← List.mergeSort_zipIdx, List.pairwise_map]
  refine (hsorted.and hplaces).imp_of_mem fun {x y} hx hy hxy => ?_
  obtain ⟨hle, hne⟩ := hxy
  rw [hperm.mem_iff, List.mem_zipIdx_iff_getElem?] at hx hy
  unfold List.zipIdxLE at hle
  split at hle
  · next hxy =>
    refine ⟨hxy, fun hyx => ?_⟩
    rw [if_pos hyx, decide_eq_true_eq] at hle
    obtain ⟨hi, hx⟩ := List.getElem?_eq_some_iff.mp hx
    obtain ⟨hj, hy⟩ := List.getElem?_eq_some_iff.mp hy
    rw [← hx, ← hy]
    exact List.pairwise_iff_getElem.mp h _ _ hi hj (lt_of_le_of_ne hle hne)
  · exact absurd hle (by decide)

end SortKey
