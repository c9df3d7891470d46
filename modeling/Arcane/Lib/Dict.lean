import Mathlib.Data.List.Nodup

/-!
# Dictionaries in insertion order

`Assoc.set` is `d[k] = v` on the list of a dictionary's items: a key that is there keeps its
place. `Dict` carries that no key occurs twice, so that its items are what `get?` reads
(`mem_items`).
-/

namespace Assoc

variable {K V : Type}

def keys (l : List (K × V)) : List K := l.map (·.1)

/-- Applies `f` to the values in order, and stops at the first that has no image: the list then,
and whether it was stopped. -/
def mapUntil (f : V → Option V) : List (K × V) → List (K × V) × Bool
  | [] => ([], false)
  | m :: l =>
    match f m.2 with
    | none => (m :: l, true)
    | some v => ((m.1, v) :: (mapUntil f l).1, (mapUntil f l).2)

@[simp]
theorem keys_nil : keys ([] : List (K × V)) = [] := rfl

@[simp]
theorem keys_cons (m : K × V) (l : List (K × V)) : keys (m :: l) = m.1 :: keys l := rfl

@[simp]
theorem keys_append (l l' : List (K × V)) : keys (l ++ l') = keys l ++ keys l' := List.map_append

theorem mem_keys {l : List (K × V)} {k : K} : k ∈ keys l ↔ ∃ v, (k, v) ∈ l := by
  simp [keys]

theorem keys_mapUntil (f : V → Option V) (l : List (K × V)) : keys (mapUntil f l).1 = keys l := by
  induction l with
  | nil => rfl
  | cons m l ih =>
    rw [mapUntil]
    split
    · rfl
    · simp [ih]

/-- An item of the list then is an old one, or the image of one. -/
theorem of_mem_mapUntil {f : V → Option V} {l : List (K × V)} {m : K × V}
    (h : m ∈ (mapUntil f l).1) : m ∈ l ∨ ∃ v, (m.1, v) ∈ l ∧ f v = some m.2 := by
  induction l with
  | nil => exact .inl h
  | cons x l ih =>
    rw [mapUntil] at h
    split at h
    · exact .inl h
    · next v hv =>
      rcases List.mem_cons.mp h with rfl | h
      · exact .inr ⟨x.2, by simp, hv⟩
      · refine (ih h).imp (List.mem_cons_of_mem _) ?_
        rintro ⟨w, hw, hf⟩
        exact ⟨w, List.mem_cons_of_mem _ hw, hf⟩

/-- An old item is in the list then, or its image is. -/
theorem mem_mapUntil {f : V → Option V} {l : List (K × V)} {m : K × V} (h : m ∈ l) :
    m ∈ (mapUntil f l).1 ∨ ∃ v, f m.2 = some v ∧ (m.1, v) ∈ (mapUntil f l).1 := by
  induction l with
  | nil => cases h
  | cons x l ih =>
    rw [mapUntil]
    split
    · exact .inl h
    · next v hv =>
      rcases List.mem_cons.mp h with rfl | h
      · exact .inr ⟨v, hv, by simp⟩
      · refine (ih h).imp (List.mem_cons_of_mem _) ?_
        rintro ⟨w, hf, hw⟩
        exact ⟨w, hf, List.mem_cons_of_mem _ hw⟩

/-- With an image for every value, all of them are mapped. -/
theorem mapUntil_of_isSome {f : V → Option V} {l : List (K × V)}
    (h : ∀ m ∈ l, (f m.2).isSome) :
    (mapUntil f l).2 = false ∧
      ∀ k w, (k, w) ∈ (mapUntil f l).1 ↔ ∃ v, (k, v) ∈ l ∧ f v = some w := by
  induction l with
  | nil => simp [mapUntil]
  | cons m l ih =>
    obtain ⟨hm, hl⟩ := List.forall_mem_cons.mp h
    obtain ⟨v, hv⟩ := Option.isSome_iff_exists.mp hm
    obtain ⟨hstop, hmem⟩ := ih hl
    refine ⟨by simp only [mapUntil, hv, hstop], fun k w => ?_⟩
    simp only [mapUntil, hv, List.mem_cons, hmem, Prod.mk.injEq]
    constructor
    · rintro (⟨rfl, rfl⟩ | ⟨u, hu, hw⟩)
      · exact ⟨m.2, .inl rfl, hv⟩
      · exact ⟨u, .inr hu, hw⟩
    · rintro ⟨u, rfl | hu, hw⟩
      · exact .inl ⟨rfl, Option.some.inj (hw.symm.trans hv)⟩
      · exact .inr ⟨u, hu, hw⟩

section Set

variable [DecidableEq K]

/-- `d[k] = v`. -/
def set (l : List (K × V)) (m : K × V) : List (K × V) :=
  if l.any (·.1 = m.1) then l.map fun x => if x.1 = m.1 then m else x else l ++ [m]

/-- The items set one after the other: the last one of a key is kept. -/
def ofList (l : List (K × V)) : List (K × V) := l.foldl set []

theorem any_key {l : List (K × V)} {k : K} : (l.any fun x => x.1 = k) = true ↔ k ∈ keys l := by
  simp [mem_keys]

theorem set_of_mem {l : List (K × V)} {m : K × V} (h : m.1 ∈ keys l) :
    set l m = l.map fun x => if x.1 = m.1 then m else x := if_pos (any_key.mpr h)

theorem set_of_notMem {l : List (K × V)} {m : K × V} (h : m.1 ∉ keys l) : set l m = l ++ [m] :=
  if_neg fun h' => h (any_key.mp h')

theorem keys_set (l : List (K × V)) (m : K × V) :
    keys (set l m) = if m.1 ∈ keys l then keys l else keys l ++ [m.1] := by
  by_cases h : m.1 ∈ keys l
  · rw [if_pos h, set_of_mem h, keys, keys, List.map_map]
    apply List.map_congr_left
    intro x _
    by_cases hx : x.1 = m.1 <;> simp [hx]
  · rw [if_neg h, set_of_notMem h]
    simp

/-- Keys and values that are written differently. -/
theorem set_map {K' W : Type} [DecidableEq K'] {g : K → K'} (hg : Function.Injective g) (f : V → W)
    (l : List (K × V)) (m : K × V) :
    set (l.map fun x => (g x.1, f x.2)) (g m.1, f m.2) = (set l m).map fun x => (g x.1, f x.2) := by
  have hany : ((l.map fun x => (g x.1, f x.2)).any fun x => x.1 = g m.1) =
      l.any fun x => x.1 = m.1 := by
    rw [List.any_map]
    simp only [Function.comp_def, hg.eq_iff]
  unfold set
  rw [hany]
  split
  · rw [List.map_map, List.map_map]
    refine List.map_congr_left fun x _ => ?_
    by_cases hx : x.1 = m.1
    · simp [hx]
    · simp [hx, hg.eq_iff]
  · rw [List.map_append, List.map_singleton]

theorem nodup_set {l : List (K × V)} (h : (keys l).Nodup) (m : K × V) : (keys (set l m)).Nodup := by
  rw [keys_set]
  split
  · exact h
  · next hm =>
    rw [List.nodup_append]
    refine ⟨h, List.nodup_singleton _, ?_⟩
    rintro a ha b hb rfl
    rw [List.mem_singleton] at hb
    exact hm (hb ▸ ha)

/-- Exactly the item that was set, and those of the other keys. -/
theorem mem_set {l : List (K × V)} {m x : K × V} :
    x ∈ set l m ↔ x = m ∨ x ∈ l ∧ x.1 ≠ m.1 := by
  by_cases h : m.1 ∈ keys l
  · rw [set_of_mem h, List.mem_map]
    constructor
    · rintro ⟨y, hy, rfl⟩
      by_cases hym : y.1 = m.1
      · simp [hym]
      · simp [hym, hy]
    · rintro (rfl | ⟨hx, hne⟩)
      · obtain ⟨v, hv⟩ := mem_keys.mp h
        exact ⟨_, hv, by simp⟩
      · exact ⟨x, hx, by simp [hne]⟩
  · rw [set_of_notMem h, List.mem_append, List.mem_singleton]
    constructor
    · rintro (hx | rfl)
      · refine .inr ⟨hx, fun hc => h ?_⟩
        rw [← hc]
        exact List.mem_map_of_mem hx
      · exact .inl rfl
    · rintro (rfl | ⟨hx, -⟩)
      · exact .inr rfl
      · exact .inl hx

theorem nodup_foldl_set (l : List (K × V)) {acc : List (K × V)} (h : (keys acc).Nodup) :
    (keys (l.foldl set acc)).Nodup := by
  induction l generalizing acc with
  | nil => exact h
  | cons m l ih => exact ih (nodup_set h m)

/-- What is in a dictionary was put into it. -/
theorem of_mem_foldl_set {l acc : List (K × V)} {x : K × V} (h : x ∈ l.foldl set acc) :
    x ∈ acc ∨ x ∈ l := by
  induction l generalizing acc with
  | nil => exact .inl h
  | cons m l ih =>
    rcases ih h with hx | hx
    · rcases mem_set.mp hx with rfl | ⟨hx, -⟩
      · exact .inr List.mem_cons_self
      · exact .inl hx
    · exact .inr (List.mem_cons_of_mem _ hx)

theorem of_mem_ofList {l : List (K × V)} {x : K × V} (h : x ∈ ofList l) : x ∈ l :=
  (of_mem_foldl_set h).resolve_left List.not_mem_nil

theorem foldl_set {l acc : List (K × V)} (h : (keys (acc ++ l)).Nodup) :
    l.foldl set acc = acc ++ l := by
  induction l generalizing acc with
  | nil => simp
  | cons m l ih =>
    have hnew : m.1 ∉ keys acc := by
      intro hm
      rw [keys_append] at h
      exact (List.disjoint_of_nodup_append h) hm (by simp)
    rw [List.foldl_cons, set_of_notMem hnew, ih (by simpa using h)]
    simp

/-- Items of different keys are the dictionary that they make. -/
theorem ofList_eq {l : List (K × V)} (h : (keys l).Nodup) : ofList l = l :=
  foldl_set (by simpa using h)

end Set

end Assoc

/-- A dictionary, as its items in insertion order. -/
@[ext]
structure Dict (K V : Type) where
  items : List (K × V)
  nodup : (Assoc.keys items).Nodup

namespace Dict

variable {K V : Type}

instance : EmptyCollection (Dict K V) := ⟨⟨[], List.nodup_nil⟩⟩

@[simp]
theorem items_empty : (∅ : Dict K V).items = [] := rfl

def keys (d : Dict K V) : List K := Assoc.keys d.items

def values (d : Dict K V) : List V := d.items.map (·.2)

def filter (p : V → Bool) (d : Dict K V) : Dict K V where
  items := d.items.filter fun m => p m.2
  nodup := d.nodup.sublist (List.Sublist.map _ List.filter_sublist)

def map {W : Type} (f : V → W) (d : Dict K V) : Dict K W where
  items := d.items.map fun m => (m.1, f m.2)
  nodup := by
    have h : Assoc.keys (d.items.map fun m => (m.1, f m.2)) = Assoc.keys d.items := by
      simp [Assoc.keys, Function.comp_def]
    rw [h]
    exact d.nodup

/-- `Assoc.mapUntil` on the values. -/
def mapUntil (f : V → Option V) (d : Dict K V) : Dict K V × Bool :=
  (⟨(Assoc.mapUntil f d.items).1, by rw [Assoc.keys_mapUntil]; exact d.nodup⟩,
    (Assoc.mapUntil f d.items).2)

@[simp]
theorem items_filter (p : V → Bool) (d : Dict K V) :
    (d.filter p).items = d.items.filter fun m => p m.2 := rfl

@[simp]
theorem items_map {W : Type} (f : V → W) (d : Dict K V) :
    (d.map f).items = d.items.map fun m => (m.1, f m.2) := rfl

@[simp]
theorem items_mapUntil (f : V → Option V) (d : Dict K V) :
    (d.mapUntil f).1.items = (Assoc.mapUntil f d.items).1 := rfl

/-- A key has one value. -/
theorem value_unique {d : Dict K V} {k : K} {v w : V} (hv : (k, v) ∈ d.items)
    (hw : (k, w) ∈ d.items) : v = w := by
  have h := List.inj_on_of_nodup_map d.nodup hv hw rfl
  exact (Prod.mk.inj h).2

variable [DecidableEq K]

def get? (d : Dict K V) (k : K) : Option V := (d.items.find? fun m => m.1 = k).map (·.2)

def set (d : Dict K V) (k : K) (v : V) : Dict K V :=
  ⟨Assoc.set d.items (k, v), Assoc.nodup_set d.nodup _⟩

/-- `for k, v in l: d[k] = v`. -/
def update (d : Dict K V) (l : List (K × V)) : Dict K V := l.foldl (fun d m => d.set m.1 m.2) d

/-- `d.setdefault(k, v)`. -/
def setDefault (d : Dict K V) (k : K) (v : V) : Dict K V :=
  if (d.get? k).isSome then d else d.set k v

/-- `d.pop(k, None)`. -/
def erase (d : Dict K V) (k : K) : Dict K V where
  items := d.items.filter fun m => m.1 ≠ k
  nodup := d.nodup.sublist (List.Sublist.map _ List.filter_sublist)

def ofList (l : List (K × V)) : Dict K V :=
  ⟨Assoc.ofList l, Assoc.nodup_foldl_set l List.nodup_nil⟩

theorem mem_items {d : Dict K V} {k : K} {v : V} : d.get? k = some v ↔ (k, v) ∈ d.items := by
  constructor
  · intro h
    obtain ⟨m, hm, rfl⟩ := Option.map_eq_some_iff.mp h
    have hk : m.1 = k := by simpa using List.find?_some hm
    rw [← hk]
    exact List.mem_of_find?_eq_some hm
  · intro h
    cases hf : d.items.find? fun m => m.1 = k with
    | none => simpa using List.find?_eq_none.mp hf _ h
    | some m =>
      have hk : m.1 = k := by simpa using List.find?_some hf
      have hm : (k, m.2) ∈ d.items := by
        rw [← hk]
        exact List.mem_of_find?_eq_some hf
      simp [get?, hf, value_unique hm h]

theorem get?_eq_none {d : Dict K V} {k : K} : d.get? k = none ↔ k ∉ d.keys := by
  rw [Option.eq_none_iff_forall_ne_some]
  simp only [ne_eq, mem_items, keys, Assoc.mem_keys, not_exists]

@[simp]
theorem items_set (d : Dict K V) (k : K) (v : V) : (d.set k v).items = Assoc.set d.items (k, v) :=
  rfl

theorem mem_items_set {d : Dict K V} {k : K} {v : V} {x : K × V} :
    x ∈ (d.set k v).items ↔ x = (k, v) ∨ x ∈ d.items ∧ x.1 ≠ k := Assoc.mem_set

theorem get?_set (d : Dict K V) (k k' : K) (v : V) :
    (d.set k v).get? k' = if k' = k then some v else d.get? k' := by
  have hiff (w : V) : (d.set k v).get? k' = some w ↔
      (if k' = k then some v else d.get? k') = some w := by
    rw [mem_items, mem_items_set]
    by_cases hk : k' = k
    · simp [hk, eq_comm]
    · simp [hk, mem_items]
  exact Option.ext hiff

theorem items_update (d : Dict K V) (l : List (K × V)) :
    (d.update l).items = l.foldl Assoc.set d.items := by
  induction l generalizing d with
  | nil => rfl
  | cons m l ih => exact ih (d.set m.1 m.2)

/-- Keys that are new are added at the end. -/
theorem items_update_of_nodup {d : Dict K V} {l : List (K × V)}
    (h : (Assoc.keys (d.items ++ l)).Nodup) : (d.update l).items = d.items ++ l := by
  rw [items_update, Assoc.foldl_set h]

theorem of_mem_update {d : Dict K V} {l : List (K × V)} {m : K × V}
    (h : m ∈ (d.update l).items) : m ∈ l ∨ m ∈ d.items ∧ m.1 ∉ Assoc.keys l := by
  induction l generalizing d with
  | nil => exact .inr ⟨h, List.not_mem_nil⟩
  | cons x l ih =>
    rcases ih h with hm | ⟨hm, hl⟩
    · exact .inl (List.mem_cons_of_mem _ hm)
    · rcases mem_items_set.mp hm with rfl | ⟨hm, hx⟩
      · exact .inl List.mem_cons_self
      · refine .inr ⟨hm, ?_⟩
        rw [Assoc.keys_cons, List.mem_cons, not_or]
        exact ⟨hx, hl⟩

/-- The items of other keys stay. -/
theorem mem_update {d : Dict K V} {l : List (K × V)} {m : K × V} (h : m ∈ d.items)
    (hl : m.1 ∉ Assoc.keys l) : m ∈ (d.update l).items := by
  induction l generalizing d with
  | nil => exact h
  | cons x l ih =>
    rw [Assoc.keys_cons, List.mem_cons, not_or] at hl
    exact ih (mem_items_set.mpr (.inr ⟨h, hl.1⟩)) hl.2

/-- With no key twice, every item is there. -/
theorem mem_update_of_mem {d : Dict K V} {l : List (K × V)} {m : K × V}
    (hl : (Assoc.keys l).Nodup) (h : m ∈ l) : m ∈ (d.update l).items := by
  induction l generalizing d with
  | nil => cases h
  | cons x l ih =>
    rw [Assoc.keys_cons, List.nodup_cons] at hl
    rcases List.mem_cons.mp h with rfl | h
    · have hm : m ∈ (d.set m.1 m.2).items := mem_items_set.mpr (.inl rfl)
      show m ∈ ((d.set m.1 m.2).update l).items
      exact mem_update hm hl.1
    · exact ih hl.2 h

/-- A value that is there is written again. -/
theorem set_eq_self {d : Dict K V} {k : K} {v : V} (h : d.get? k = some v) : d.set k v = d := by
  have hmem : (k, v) ∈ d.items := mem_items.mp h
  have hsame : ∀ x ∈ d.items, (if x.1 = k then (k, v) else x) = x := by
    rintro ⟨k', w⟩ hx
    split
    · next heq =>
      cases heq
      rw [value_unique hx hmem]
    · rfl
  ext1
  rw [items_set, Assoc.set_of_mem (Assoc.mem_keys.mpr ⟨v, hmem⟩)]
  exact (List.map_congr_left hsame).trans (List.map_id _)

theorem get?_erase (d : Dict K V) (k k' : K) :
    (d.erase k).get? k' = if k' = k then none else d.get? k' := by
  have hiff (w : V) : (d.erase k).get? k' = some w ↔
      (if k' = k then none else d.get? k') = some w := by
    rw [mem_items, erase, List.mem_filter]
    by_cases hk : k' = k
    · simp [hk]
    · simp [hk, mem_items]
  exact Option.ext hiff

/-- Keys that are erased one after the other. -/
theorem items_foldl_erase (ks : List K) (d : Dict K V) :
    (ks.foldl erase d).items = d.items.filter fun m => m.1 ∉ ks := by
  induction ks generalizing d with
  | nil => simp
  | cons k ks ih =>
    rw [List.foldl_cons, ih, erase, List.filter_filter]
    refine List.filter_congr fun m _ => ?_
    simp [Bool.and_comm]

theorem get?_filter (d : Dict K V) (p : V → Bool) (k : K) :
    (d.filter p).get? k = (d.get? k).filter p := by
  have hiff (w : V) : (d.filter p).get? k = some w ↔ (d.get? k).filter p = some w := by
    rw [mem_items, items_filter, List.mem_filter, Option.filter_eq_some_iff, mem_items]
  exact Option.ext hiff

theorem get?_map {W : Type} (f : V → W) (d : Dict K V) (k : K) :
    (d.map f).get? k = (d.get? k).map f := by
  rw [get?, get?, items_map, List.find?_map, Option.map_map, Option.map_map]
  rfl

theorem get?_mapUntil {f : V → Option V} {d : Dict K V} (h : ∀ m ∈ d.items, (f m.2).isSome)
    (k : K) : (d.mapUntil f).1.get? k = (d.get? k).bind f := by
  have hiff (w : V) : (d.mapUntil f).1.get? k = some w ↔ (d.get? k).bind f = some w := by
    rw [mem_items, items_mapUntil, (Assoc.mapUntil_of_isSome h).2, Option.bind_eq_some_iff]
    simp only [mem_items]
  exact Option.ext hiff

theorem items_ofList {l : List (K × V)} (h : (Assoc.keys l).Nodup) : (ofList l).items = l :=
  Assoc.ofList_eq h

end Dict
