import Arcane.Lib.Dict
import Mathlib.Data.List.Dedup
import Mathlib.Data.List.Induction

/-!
# Grouping the items of a list

A loop that keeps one value for each key: `Dict.group` folds the items of every key into the value
of the key, which begins as `init` of the first of them.

* `get?_group`: the value of a key is the fold over the items with that key.
* `keys_group`: the keys stand in the order of their first items.
* `values_eq`: the values in the order of the keys.
-/

namespace Dict

variable {K V α : Type} [DecidableEq K] (key : α → K) (init : α → V) (f : V → α → V)

/-- One item joins the value of its key. -/
def absorb (d : Dict K V) (x : α) : Dict K V :=
  d.set (key x) (f ((d.get? (key x)).getD (init x)) x)

def group (l : List α) : Dict K V := l.foldl (absorb key init f) ∅

theorem group_concat (l : List α) (x : α) :
    group key init f (l ++ [x]) = (group key init f l).absorb key init f x := by
  rw [group, List.foldl_append]
  rfl

theorem get?_group (l : List α) (k : K) :
    (group key init f l).get? k = (l.filter fun x => key x = k).head?.map fun x =>
      (l.filter fun x => key x = k).foldl f (init x) := by
  induction l using List.reverseRecOn with
  | nil => rfl
  | append_singleton l x ih =>
    rw [group_concat, absorb, get?_set, List.filter_append]
    by_cases hx : key x = k
    · subst hx
      rw [if_pos rfl, ih]
      cases l.filter fun y => key y = key x with
      | nil => simp
      | cons y ys => simp
    · rw [if_neg (Ne.symm hx), ih]
      simp [hx]

/-- The keys of a list, each where it is first. -/
def firstKeys (l : List α) : List K := (l.map key).reverse.dedup.reverse

theorem nodup_firstKeys (l : List α) : (firstKeys key l).Nodup :=
  List.nodup_reverse.mpr (List.nodup_dedup _)

theorem mem_firstKeys {l : List α} {k : K} : k ∈ firstKeys key l ↔ ∃ x ∈ l, key x = k := by
  rw [firstKeys, List.mem_reverse, List.mem_dedup, List.mem_reverse, List.mem_map]

theorem keys_group (l : List α) : (group key init f l).keys = firstKeys key l := by
  induction l using List.reverseRecOn with
  | nil => rfl
  | append_singleton l x ih =>
    rw [keys] at ih
    rw [group_concat, absorb, keys, items_set, Assoc.keys_set, ih]
    by_cases hx : key x ∈ firstKeys key l
    · have hmem : key x ∈ (l.map key).reverse := List.mem_dedup.mp (List.mem_reverse.mp hx)
      rw [if_pos hx, firstKeys, firstKeys, List.map_append, List.map_singleton, List.reverse_concat,
        List.dedup_cons_of_mem hmem]
    · have hmem : key x ∉ (l.map key).reverse := fun h =>
        hx (List.mem_reverse.mpr (List.mem_dedup.mpr h))
      rw [if_neg hx, firstKeys, firstKeys, List.map_append, List.map_singleton, List.reverse_concat,
        List.dedup_cons_of_notMem hmem, List.reverse_cons]

/-- Keys that are written differently. -/
theorem firstKeys_comp {K' : Type} [DecidableEq K'] {enc : K → K'} (henc : Function.Injective enc)
    (l : List α) : firstKeys (fun x => enc (key x)) l = (firstKeys key l).map enc := by
  have hmap : l.map (fun x => enc (key x)) = (l.map key).map enc := by
    rw [List.map_map]
    rfl
  rw [firstKeys, firstKeys, hmap, ← List.map_reverse, List.dedup_map_of_injective henc,
    List.map_reverse]

/-- The values of a dictionary from those of its keys. -/
theorem values_eq {K' : Type} {enc : K' → K} {d : Dict K V} {ks : List K'} {v : K' → V}
    (hkeys : d.keys = ks.map enc) (hget : ∀ k ∈ ks, d.get? (enc k) = some (v k)) :
    d.values = ks.map v := by
  rw [keys, Assoc.keys] at hkeys
  rw [values]
  have hitems : d.items = ks.map fun k => (enc k, v k) := by
    refine List.ext_getElem ?_ fun i h₁ h₂ => ?_
    · simpa using congrArg List.length hkeys
    · have hi : i < ks.length := by simpa using h₂
      have hkey : d.items[i].1 = enc ks[i] := by
        have h := congrArg (fun l => l[i]?) hkeys
        simpa [h₁, hi] using h
      have hmem := mem_items.mp (hget ks[i] (List.getElem_mem hi))
      have hitem : (enc ks[i], d.items[i].2) ∈ d.items := by
        rw [← hkey]
        exact List.getElem_mem h₁
      rw [List.getElem_map, ← hkey, ← value_unique hitem hmem]
  rw [hitems, List.map_map]
  rfl

end Dict
