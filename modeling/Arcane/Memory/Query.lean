import Arcane.Memory.Live
import Arcane.Memory.Lookup
import Mathlib.Algebra.BigOperators.Fin
import Mathlib.Algebra.Order.BigOperators.Group.List
import Mathlib.Algebra.Order.Field.Basic
import Mathlib.Algebra.Order.Ring.Rat

/-!
# What a query answers

* `Ranks`: the best entries, in the order of their scores.
* `plainScore`: the score of an entry, with no table.
* `query_plain`: after any calls, a query answers the best entries by their plain scores, and the
  vector that an entry was stored from scores its weight.
-/

namespace Arcane
namespace Memory

open Text Finset

/-- The `k` entries with the highest scores, the highest first. -/
structure Ranks {K V : Type} [Field K] [LinearOrder K] (entries : Dict Str V) (score : V → K)
    (k : ℕ) (results : List (Str × Double K)) : Prop where
  length : results.length = min k entries.items.length
  nodup : (results.map (·.1)).Nodup
  scores : ∀ r ∈ results, ∃ e, (r.1, e) ∈ entries.items ∧ r.2 = .finite (score e)
  sorted : results.Pairwise fun r r' => number r'.2 ≤ number r.2
  best : ∀ r ∈ results, ∀ m ∈ entries.items, m.1 ∉ results.map (·.1) → score m.2 ≤ number r.2

/-- Calls of a service, which may go on as the one that `load` makes of its archive. -/
inductive Use (K : Type) where
  | live (c : Live K K)
  | saveLoad

/-- The vector that an accepted `add` of the trace id stores. -/
def Use.vector {K : Type} (dim : ℕ) (traceId : Str) : Use K → Option (List K)
  | .live (.add _ traceId' vec kind _ _) =>
    if traceId' = traceId ∧ kind ∈ validKinds ∧ vec.length = dim then some vec else none
  | _ => none

/-- The vector that the entry of the trace id was stored from. -/
def origin {K : Type} (dim : ℕ) (us : List (Use K)) (traceId : Str) : Option (List K) :=
  us.reverse.findSome? (Use.vector dim traceId)

namespace MemoryService

section Uses

variable {K : Type} (N : Numerics K K) (s : MemoryService K K)

/-- The state after a call; what is loaded is the reloaded service by `load_save`. -/
def use : Use K → MemoryService K K
  | .live c => live N s c
  | .saveLoad => s.reloaded N

def uses (us : List (Use K)) : MemoryService K K := us.foldl (use N) s

end Uses

section Scores

variable {K : Type} [Field K] [LinearOrder K]

/-- `weight * (sum of the signed components) / l1`. -/
def plainScore (dim : ℕ) (rotated : List K) (e : Entry K) : K :=
  number e.weight * (∑ j ∈ range dim, sign e.bitsPacked j * rotated.getD j 0) /
    if number e.l1 = 0 then 1 else number e.l1

/-- The entry holds the code of `v`, and its scalars are numbers. -/
structure Coded (N : Numerics K K) (dim seed : ℕ) (c v : List K) (e : Entry K) : Prop where
  bitsPacked : e.bitsPacked = (code N dim seed c v).bitsPacked
  l1 : e.l1 = (code N dim seed c v).l1
  weight : ∃ w, e.weight = .finite w
  lastDecayTs : ∃ t, e.lastDecayTs = .finite t

variable (A : Arrays K) {dim seed : ℕ} {c v rotated : List K} {e : Entry K}

theorem length_rotated (hc : c.length = dim) (hv : v.length = dim) :
    (code (.exact A) dim seed c v).rotated.length = dim := A.length_rotate _ _ _ (length_unit hc hv)

/-- The table-driven score of an entry is the plain one. -/
theorem score_eq (hrotated : rotated.length = dim)
    (hpacked : e.bitsPacked.length = (dim + 7) / 8) (hl1 : 0 ≤ number e.l1) :
    approxInner rotated e.bitsPacked / (if 0 < number e.l1 then number e.l1 else 1) *
      number e.weight = plainScore dim rotated e := by
  have hpos : 0 < number e.l1 ↔ ¬ number e.l1 = 0 := by
    rw [hl1.lt_iff_ne, ne_comm]
  have hscale : (if 0 < number e.l1 then number e.l1 else 1) =
      if number e.l1 = 0 then 1 else number e.l1 := by
    simp only [hpos, ite_not]
  rw [approxInner_eq (by omega), hrotated, hscale, plainScore, div_mul_eq_mul_div, mul_comm]

variable {A}

omit [LinearOrder K] in
theorem sum_getD (l : List K) : ∑ j ∈ range l.length, l.getD j 0 = l.sum := by
  rw [sum_range, ← Fin.sum_univ_getElem]
  exact sum_congr rfl fun i _ => List.getD_eq_getElem _ _ i.isLt

/-- A packed sign. -/
theorem sign_packed {j : ℕ} (hj : j < v.length) :
    sign (packBits (v.map fun x => decide (0 ≤ x)) dim) j =
      if 0 ≤ v.getD j 0 then (1 : K) else -1 := by
  have hmap : (v.map fun x => decide (0 ≤ x)).getD j false = decide (0 ≤ v.getD j 0) := by
    simp [hj]
  rw [sign_packBits (by rw [List.length_map]; exact hj), hmap]
  simp only [decide_eq_true_iff]

variable [IsStrictOrderedRing K]

/-- A component times its sign is its size. -/
theorem sum_signs (hv : v.length = dim) :
    ∑ j ∈ range dim, sign (packBits (v.map fun x => decide (0 ≤ x)) dim) j * v.getD j 0 =
      (v.map abs).sum := by
  have habs : ∀ j ∈ range dim,
      sign (packBits (v.map fun x => decide (0 ≤ x)) dim) j * v.getD j 0 = |v.getD j 0| := by
    intro j hj
    rw [sign_packed (by rw [hv]; exact mem_range.mp hj)]
    split
    · next hsign => rw [one_mul, abs_of_nonneg hsign]
    · next hsign => rw [neg_one_mul, abs_of_neg (not_le.mp hsign)]
  have hmap : ∀ j ∈ range dim, |v.getD j 0| = (v.map abs).getD j 0 := by
    intro j _
    have h : (v.map abs).getD j |0| = |v.getD j 0| := List.getD_map ..
    rw [← h, abs_zero]
  rw [sum_congr rfl habs, sum_congr rfl hmap, ← sum_getD, List.length_map, hv]

omit [IsStrictOrderedRing K] in
theorem Coded.sign_eq (hc : c.length = dim) (hv : v.length = dim)
    (he : Coded (.exact A) dim seed c v e) {j : ℕ} (hj : j < dim) : sign e.bitsPacked j =
      if 0 ≤ (code (.exact A) dim seed c v).rotated.getD j 0 then (1 : K) else -1 := by
  have hlt : j < (code (.exact A) dim seed c v).rotated.length := by
    rw [length_rotated A hc hv]
    exact hj
  rw [he.bitsPacked]
  exact sign_packed hlt

/-- An entry scores its weight against the vector that it holds the code of. -/
theorem plainScore_self (hc : c.length = dim) (hv : v.length = dim)
    (he : Coded (.exact A) dim seed c v e) (hl1 : e.l1 ≠ .finite 0) :
    plainScore dim (code (.exact A) dim seed c v).rotated e = number e.weight := by
  have hnumber : e.l1 = .finite (number e.l1) := by
    rw [he.l1]
    rfl
  have hne : number e.l1 ≠ 0 := fun h => hl1 (hnumber.trans (congrArg Double.finite h))
  have hsum : ∑ j ∈ range dim, sign e.bitsPacked j *
      (code (.exact A) dim seed c v).rotated.getD j 0 = number e.l1 := by
    rw [he.bitsPacked, he.l1]
    exact sum_signs (length_rotated A hc hv)
  rw [plainScore, hsum, if_neg hne, mul_div_cancel_right₀ _ hne]

/-- The best entries, from the places of the best scores. -/
theorem ranks_of_first {V : Type} {entries : Dict Str V} {score : V → K} {k : ℕ} {y : ℕ → K}
    {order : List ℕ} (hne : entries.items ≠ [])
    (hy : ∀ j m, entries.items[j]? = some m → y j = -score m.2)
    (h : TopK.First y entries.items.length k order) :
    Ranks entries score k (order.filterMap fun j => entries.items[j]?.map fun m =>
      (m.1, .finite (score m.2))) := by
  obtain ⟨f, hf⟩ : ∃ f : ℕ → Str × V, ∀ j < entries.items.length,
      entries.items[j]? = some (f j) := by
    refine ⟨fun j => entries.items.getD j (entries.items.head hne), fun j hj => ?_⟩
    exact (List.getElem?_eq_getElem hj).trans (congrArg some (List.getD_eq_getElem _ _ hj).symm)
  have hmem : ∀ j ∈ order, f j ∈ entries.items := fun j hj =>
    List.mem_of_getElem? (hf j (h.lt j hj))
  have hvalue : ∀ j < entries.items.length, y j = -score (f j).2 := fun j hj => hy j _ (hf j hj)
  have hresults : (order.filterMap fun j => entries.items[j]?.map fun m =>
      (m.1, Double.finite (score m.2))) =
        order.map fun j => ((f j).1, .finite (score (f j).2)) := by
    rw [← List.filterMap_eq_map]
    refine List.filterMap_congr fun j hj => ?_
    rw [hf j (h.lt j hj)]
    rfl
  rw [hresults]
  constructor
  · rw [List.length_map, h.length]
  · rw [List.map_map]
    refine h.nodup.map_on fun i hi j hj hid => ?_
    have hentry : f i = f j := List.inj_on_of_nodup_map entries.nodup (hmem i hi) (hmem j hj) hid
    have hplace : entries.items[i]? = entries.items[j]? := by
      rw [hf i (h.lt i hi), hf j (h.lt j hj), hentry]
    exact (List.getElem?_inj (h.lt i hi) (List.Nodup.of_map _ entries.nodup)).mp hplace
  · intro r hr
    obtain ⟨j, hj, rfl⟩ := List.mem_map.mp hr
    exact ⟨(f j).2, hmem j hj, rfl⟩
  · rw [List.pairwise_map]
    refine h.sorted.imp_of_mem fun {i j} hi hj hle => ?_
    rw [hvalue i (h.lt i hi), hvalue j (h.lt j hj), neg_le_neg_iff] at hle
    exact hle
  · intro r hr m hm hnot
    obtain ⟨i, hi, rfl⟩ := List.mem_map.mp hr
    obtain ⟨j, hj, hplace⟩ := List.getElem_of_mem hm
    have hm' : f j = m := by
      rw [← hplace]
      exact Option.some.inj ((hf j hj).symm.trans (List.getElem?_eq_getElem hj))
    have hout : j ∉ order := by
      intro hj'
      refine hnot (List.mem_map.mpr ⟨_, List.mem_map_of_mem hj', ?_⟩)
      rw [hm']
    have hle := h.least i hi j hj hout
    rw [hvalue i (h.lt i hi), hvalue j hj, neg_le_neg_iff, hm'] at hle
    exact hle

end Scores

/-! ## Runs -/

section Runs

variable {K : Type} [Field K] [LinearOrder K] {A : Arrays K} {s : MemoryService K K}
  {dim seed : ℕ} {c v : List K} {e e' : Entry K} {us : List (Use K)}

/-- After the calls `us`, every entry holds the code of the vector that it was stored from. -/
structure Sound (A : Arrays K) (dim seed : ℕ) (us : List (Use K)) (s : MemoryService K K) :
    Prop where
  lambdas : ∀ m ∈ s.decayLambdas.items, ∃ lam, m.2 = .finite lam
  centre : (s.centre (.exact A)).length = dim
  entries : ∀ m ∈ s.entries.items, ∃ v, origin dim us m.1 = some v ∧ v.length = dim ∧
    Coded (.exact A) dim seed (s.centre (.exact A)) v m.2
  dim : s.dim = dim
  seed : s.seed = seed

omit [Field K] [LinearOrder K] in
theorem origin_concat (us : List (Use K)) (u : Use K) (traceId : Str) :
    origin dim (us ++ [u]) traceId = (u.vector dim traceId).or (origin dim us traceId) := by
  simp only [origin, List.reverse_append, List.reverse_singleton, List.singleton_append,
    List.findSome?_cons]
  cases u.vector dim traceId <;> rfl

theorem Coded.decayed {now : K} (hlam : ∀ m ∈ s.decayLambdas.items, ∃ lam, m.2 = .finite lam)
    (he : Coded (.exact A) dim seed c v e) (h : s.decayed (.exact A) (.finite now) e = some e') :
    Coded (.exact A) dim seed c v e' := by
  obtain ⟨w, hw⟩ := he.weight
  obtain ⟨t, ht⟩ := he.lastDecayTs
  obtain ⟨lam, hget⟩ : ∃ lam : K, (s.decayLambdas.get? e.kind).getD (.finite 0) = .finite lam := by
    cases hkind : s.decayLambdas.get? e.kind with
    | none => exact ⟨0, rfl⟩
    | some x => exact hlam _ (Dict.mem_items.mp hkind)
  have hN := Numerics.exact_exact A
  simp only [MemoryService.decayed] at h
  split at h
  · cases h
    exact ⟨he.bitsPacked, he.l1, ⟨w, hw⟩, now, rfl⟩
  · obtain ⟨f, hf, rfl⟩ := Option.map_eq_some_iff.mp h
    rw [ht, hN.sub, hN.max_zero, hN.quot_zero, hget, hN.neg, hN.mul] at hf
    cases hf
    exact ⟨he.bitsPacked, he.l1, ⟨_, congrArg (fun x => Numerics.onFinite _ x _) hw⟩, now, rfl⟩

theorem Coded.rounded (he : Coded (.exact A) dim seed c v e) :
    Coded (.exact A) dim seed c v (rounded (.exact A) e) where
  bitsPacked := he.bitsPacked
  l1 := by
    show Double.finite (number e.l1) = _
    rw [he.l1]
    rfl
  weight := ⟨_, rfl⟩
  lastDecayTs := he.lastDecayTs

theorem finite_defaultLambdas : ∀ m ∈ (defaultLambdas (.exact A)).items, ∃ lam : K,
    m.2 = .finite lam := by
  rw [items_defaultLambdas]
  simp only [List.forall_mem_cons]
  exact ⟨⟨_, rfl⟩, ⟨_, rfl⟩, ⟨_, rfl⟩, by simp⟩

theorem sound_new (decayLambdas : Dict Str K) :
    Sound A dim seed [] (new (.exact A) dim (decayLambdas.map .finite) seed) where
  lambdas := by
    intro m hm
    simp only [new] at hm
    split at hm
    · exact finite_defaultLambdas m hm
    · obtain ⟨x, -, rfl⟩ := List.mem_map.mp hm
      exact ⟨x.2, rfl⟩
  centre := List.length_replicate
  entries m hm := by cases hm
  dim := rfl
  seed := rfl

/-- A call that stores nothing leaves the origins. -/
theorem Sound.keep {u : Use K} {s' : MemoryService K K} (hs : Sound A dim seed us s)
    (hu : ∀ traceId, u.vector dim traceId = none)
    (hlambdas : ∀ m ∈ s'.decayLambdas.items, ∃ lam, m.2 = .finite lam)
    (hcentre : (s'.centre (.exact A)).length = dim)
    (hentries : ∀ v, ∀ m ∈ s'.entries.items, ∃ e, (m.1, e) ∈ s.entries.items ∧
      (Coded (.exact A) dim seed (s.centre (.exact A)) v e →
        Coded (.exact A) dim seed (s'.centre (.exact A)) v m.2))
    (hdim : s'.dim = s.dim) (hseed : s'.seed = s.seed) : Sound A dim seed (us ++ [u]) s' where
  lambdas := hlambdas
  centre := hcentre
  entries m hm := by
    obtain ⟨e, he, -⟩ := hentries [] m hm
    obtain ⟨v, horigin, hv, hcoded⟩ := hs.entries _ he
    obtain ⟨e', he', hkeep⟩ := hentries v m hm
    rw [Dict.value_unique he' he] at hkeep
    refine ⟨v, ?_, hv, hkeep hcoded⟩
    rw [origin_concat, hu, Option.none_or, horigin]
  dim := hdim.trans hs.dim
  seed := hseed.trans hs.seed

theorem Sound.same {u : Use K} (hs : Sound A dim seed us s)
    (hu : ∀ traceId, u.vector dim traceId = none) : Sound A dim seed (us ++ [u]) s :=
  hs.keep hu hs.lambdas hs.centre (fun _ m hm => ⟨m.2, hm, id⟩) rfl rfl

theorem Sound.ensureCentroid {u : Use K} (hs : Sound A dim seed us s)
    (hu : ∀ traceId, u.vector dim traceId = none) :
    Sound A dim seed (us ++ [u]) (s.ensureCentroid (.exact A)) :=
  hs.keep hu hs.lambdas hs.centre (fun _ m hm => ⟨m.2, hm, id⟩) rfl rfl

theorem Sound.setCentroid (hs : Sound A dim seed us s) (vec : Option (List K)) :
    Sound A dim seed (us ++ [.live (.setCentroid vec)]) ((s.setCentroid vec).getD s) := by
  unfold MemoryService.setCentroid
  split
  · exact hs.same fun _ => rfl
  · next hempty =>
    have hnil : s.entries.items = [] := List.length_eq_zero_iff.mp (by omega)
    have hnone : ∀ v : List K, ∀ m ∈ s.entries.items, False := by simp [hnil]
    split
    · refine hs.keep (fun _ => rfl) hs.lambdas ?_ (fun v m hm => (hnone v m hm).elim) rfl rfl
      show (zeros _ s.dim).length = dim
      rw [zeros, List.length_replicate, hs.dim]
    · split
      · exact hs.same fun _ => rfl
      · next hlen =>
        refine hs.keep (fun _ => rfl) hs.lambdas ?_ (fun v m hm => (hnone v m hm).elim) rfl rfl
        exact (not_not.mp hlen).trans hs.dim

theorem Sound.decayStep (hs : Sound A dim seed us s) (now : K) :
    Sound A dim seed (us ++ [.live (.decayStep now)])
      (s.decayStep (.exact A) (.finite now)).1 := by
  refine hs.keep (fun _ => rfl) hs.lambdas hs.centre (fun v m hm => ?_) rfl rfl
  rcases mem_decayStep hm with hm | ⟨e, he, hdecayed⟩
  · exact ⟨m.2, hm, id⟩
  · exact ⟨e, he, fun hcoded => hcoded.decayed hs.lambdas hdecayed⟩

theorem Sound.add {now : K} {traceId : Str} {vec : List K} {kind : Str} {pinned : Bool}
    {payload : Option (Payload K)} (hs : Sound A dim seed us s) :
    Sound A dim seed (us ++ [.live (.add now traceId vec kind pinned payload)])
      ((s.add (.exact A) (.finite now) traceId vec kind pinned payload).getD s) := by
  cases h : s.add (.exact A) (.finite now) traceId vec kind pinned payload with
  | none =>
    refine hs.same fun traceId' => if_neg ?_
    rintro ⟨-, hkind, hlen⟩
    exact add_eq_none h ⟨hkind, hlen.trans hs.dim.symm⟩
  | some s' =>
    obtain ⟨hkind, hlen, rfl⟩ := add_eq_some_iff.mp h
    refine ⟨hs.lambdas, hs.centre, fun m hm => ?_, hs.dim, hs.seed⟩
    rw [origin_concat, Use.vector]
    rcases Dict.mem_items_set.mp hm with rfl | ⟨hm, hne⟩
    · refine ⟨vec, ?_, hlen.trans hs.dim, ?_⟩
      · rw [if_pos ⟨rfl, hkind, hlen.trans hs.dim⟩, Option.some_or]
      · show Coded _ dim seed (s.centre _) vec (s.newEntry _ _ traceId vec kind pinned payload)
        rw [← hs.dim, ← hs.seed]
        exact ⟨rfl, rfl, ⟨_, rfl⟩, _, rfl⟩
    · rw [if_neg fun h => hne h.1.symm, Option.none_or]
      exact hs.entries m hm

theorem Sound.saveLoad (hs : Sound A dim seed us s) :
    Sound A dim seed (us ++ [.saveLoad]) (s.reloaded (.exact A)) := by
  refine hs.keep (fun _ => rfl) (fun m hm => ?_) hs.centre (fun v m hm => ?_) rfl rfl
  · simp only [reloaded] at hm
    split at hm
    · exact finite_defaultLambdas m hm
    · exact hs.lambdas m hm
  · obtain ⟨x, hx, rfl⟩ := List.mem_map.mp hm
    exact ⟨x.2, hx, Coded.rounded⟩

theorem Sound.use (hs : Sound A dim seed us s) (u : Use K) :
    Sound A dim seed (us ++ [u]) (use (.exact A) s u) := by
  cases u with
  | saveLoad => exact hs.saveLoad
  | live c =>
    cases c with
    | decayStep now => exact hs.decayStep now
    | add now traceId vec kind pinned payload => exact hs.add
    | setCentroid vec => exact hs.setCentroid vec
    | query vec k =>
      show Sound A dim seed _ (s.query (.exact A) vec k).1
      rcases query_state (.exact A) s vec k with h | h <;> rw [h]
      · exact hs.same fun _ => rfl
      · exact hs.ensureCentroid fun _ => rfl

theorem sound_uses (decayLambdas : Dict Str K) (us : List (Use K)) :
    Sound A dim seed us
      (uses (.exact A) (new (.exact A) dim (decayLambdas.map .finite) seed) us) := by
  induction us using List.reverseRecOn with
  | nil => exact sound_new decayLambdas
  | append_singleton us u ih =>
    rw [uses, List.foldl_concat]
    exact ih.use u

/-! ## Answers -/

theorem Sound.packed (hs : Sound A dim seed us s) {m : Str × Entry K}
    (hm : m ∈ s.entries.items) : m.2.bitsPacked.length = (dim + 7) / 8 := by
  obtain ⟨v, -, hv, hcoded⟩ := hs.entries m hm
  rw [hcoded.bitsPacked]
  exact length_code hs.centre hv

variable [IsStrictOrderedRing K]

theorem Sound.l1_nonneg (hs : Sound A dim seed us s) {m : Str × Entry K}
    (hm : m ∈ s.entries.items) : 0 ≤ number m.2.l1 := by
  obtain ⟨v, -, -, hcoded⟩ := hs.entries m hm
  rw [hcoded.l1]
  show 0 ≤ (List.map abs _).sum
  refine List.sum_nonneg fun x hx => ?_
  obtain ⟨y, -, rfl⟩ := List.mem_map.mp hx
  exact abs_nonneg y

/-- The scan scores every entry plainly. -/
theorem Sound.scan_eq (hs : Sound A dim seed us s) {rotated : List K}
    (hrotated : rotated.length = dim) :
    scored rotated (s.entries.values.map fun e => (e.bitsPacked, e.l1, e.weight)) =
      s.entries.items.map fun m => .finite (plainScore dim rotated m.2) := by
  rw [Dict.values, List.map_map, scored, List.map_map]
  refine List.map_congr_left fun m hm => ?_
  exact congrArg Double.finite (score_eq hrotated (hs.packed hm) (hs.l1_nonneg hm))

omit [IsStrictOrderedRing K] in
theorem query_empty (hnil : s.entries.items = []) (vec : List K) (k : ℤ) :
    (s.query (.exact A) vec k).2 = some [] := by
  rw [query, if_pos (by rw [hnil]; rfl)]

omit [IsStrictOrderedRing K] in
theorem query_raises (hne : s.entries.items ≠ []) {vec : List K} (hvec : vec.length ≠ s.dim)
    (k : ℤ) : (s.query (.exact A) vec k).2 = none := by
  rw [query, if_neg fun h => hne (List.length_eq_zero_iff.mp h), encode, if_pos hvec]

/-- A query of entries with a vector of the right dimension. -/
theorem Sound.ranks (hs : Sound A dim seed us s) (hne : s.entries.items ≠ []) {vec : List K}
    (hvec : vec.length = dim) {k : ℕ} (hk : 0 < k) :
    ∃ results, (s.query (.exact A) vec k).2 = some results ∧
      Ranks s.entries
        (plainScore dim (code (.exact A) dim seed (s.centre (.exact A)) vec).rotated) k
        results := by
  have hrotated : (code (.exact A) dim seed (s.centre (.exact A)) vec).rotated.length = dim :=
    length_rotated A hs.centre hvec
  have hscan := hs.scan_eq hrotated
  generalize hcode :
    (code (.exact A) dim seed (s.centre (.exact A)) vec).rotated = rotated at hscan ⊢
  obtain ⟨order, htop, hfirst⟩ := Arrays.first_top (A := A)
    (s.entries.items.map fun m => .finite (plainScore dim rotated m.2)) hk
  refine ⟨_, ?_, ranks_of_first hne ?_ (List.length_map _ ▸ hfirst)⟩
  · have hlen : ¬ s.entries.items.length = 0 := fun h => hne (List.length_eq_zero_iff.mp h)
    have hdim : ¬ vec.length ≠ s.dim := not_not_intro (hvec.trans hs.dim.symm)
    have hanswer : (s.query (.exact A) vec k).2 =
        (A.top (scored rotated (s.entries.values.map fun e => (e.bitsPacked, e.l1, e.weight)))
          k).map fun order => order.filterMap fun j => s.entries.keys[j]?.bind fun tid =>
            (scored rotated (s.entries.values.map fun e =>
              (e.bitsPacked, e.l1, e.weight)))[j]?.map (tid, ·) := by
      rw [query, if_neg hlen, encode, if_neg hdim, ← hcode, hs.dim, hs.seed]
      rfl
    rw [hanswer, hscan, htop, Option.map_some]
    refine congrArg some (List.filterMap_congr fun j _ => ?_)
    rw [Dict.keys, Assoc.keys, List.getElem?_map, List.getElem?_map]
    cases s.entries.items[j]? <;> rfl
  · intro j m hm
    simp [hm, number]

/-- What a query answers. -/
theorem Sound.ranks_of_answer (hs : Sound A dim seed us s) {vec : List K} {k : ℕ} (hk : 0 < k)
    {results : List (Str × Double K)} (h : (s.query (.exact A) vec k).2 = some results) :
    Ranks s.entries (plainScore dim (code (.exact A) dim seed (s.centre (.exact A)) vec).rotated) k
      results := by
  by_cases hnil : s.entries.items = []
  · rw [query_empty hnil] at h
    cases h
    exact ⟨by simp [hnil], List.nodup_nil, by simp, .nil, by simp⟩
  · by_cases hvec : vec.length = dim
    · obtain ⟨results', hresults, hranks⟩ := hs.ranks hnil hvec hk
      cases h.symm.trans hresults
      exact hranks
    · rw [query_raises hnil (hs.dim.symm ▸ hvec)] at h
      cases h

end Runs

section Query

variable {K : Type} [Field K] [LinearOrder K]

/-- A service that was made with the constants `decayLambdas`, after the calls `us`. -/
def service (A : Arrays K) (dim seed : ℕ) (decayLambdas : Dict Str K) (us : List (Use K)) :
    MemoryService K K :=
  uses (.exact A) (new (.exact A) dim (decayLambdas.map .finite) seed) us

/-- What `query` scores the entries against. -/
def rotatedQuery (A : Arrays K) (s : MemoryService K K) (vec : List K) : List K :=
  (code (.exact A) s.dim s.seed (s.centre (.exact A)) vec).rotated

/-- A query raises on another dimension, if there are entries, and answers the best entries by
their plain scores else. Every entry holds the signs of the rotated vector that it was stored from,
and against that vector it scores its weight, unless its `l1` is zero. -/
theorem query_plain [IsStrictOrderedRing K] (A : Arrays K) (dim seed : ℕ)
    (decayLambdas : Dict Str K) (us : List (Use K)) (vec : List K) {k : ℕ} (hk : 0 < k) :
    (((service A dim seed decayLambdas us).query (.exact A) vec k).2 = none ↔
      (service A dim seed decayLambdas us).entries.items ≠ [] ∧ vec.length ≠ dim) ∧
    (∀ results, ((service A dim seed decayLambdas us).query (.exact A) vec k).2 = some results →
      Ranks (service A dim seed decayLambdas us).entries
        (plainScore dim (rotatedQuery A (service A dim seed decayLambdas us) vec)) k results) ∧
    ∀ m ∈ (service A dim seed decayLambdas us).entries.items, ∃ v,
      origin dim us m.1 = some v ∧
      (∀ j < dim, sign m.2.bitsPacked j =
        if 0 ≤ (rotatedQuery A (service A dim seed decayLambdas us) v).getD j 0 then (1 : K)
        else -1) ∧
      (m.2.l1 ≠ .finite 0 → ∀ results,
        ((service A dim seed decayLambdas us).query (.exact A) v k).2 = some results →
        ∀ r ∈ results, r.1 = m.1 → r.2 = m.2.weight) := by
  have hs : Sound A dim seed us (service A dim seed decayLambdas us) := sound_uses decayLambdas us
  generalize service A dim seed decayLambdas us = s at hs ⊢
  have hrotated (v : List K) : rotatedQuery A s v =
      (code (.exact A) dim seed (s.centre (.exact A)) v).rotated := by
    rw [rotatedQuery, hs.dim, hs.seed]
  refine ⟨⟨fun h => ⟨fun hnil => ?_, fun hvec => ?_⟩, ?_⟩, fun results hresults => ?_,
    fun m hm => ?_⟩
  · rw [query_empty hnil] at h
    cases h
  · by_cases hnil : s.entries.items = []
    · rw [query_empty hnil] at h
      cases h
    · obtain ⟨results, hresults, -⟩ := hs.ranks hnil hvec hk
      cases h.symm.trans hresults
  · rintro ⟨hne, hvec⟩
    exact query_raises hne (hs.dim.symm ▸ hvec) k
  · rw [hrotated]
    exact hs.ranks_of_answer hk hresults
  · obtain ⟨v, horigin, hv, hcoded⟩ := hs.entries m hm
    obtain ⟨w, hw⟩ := hcoded.weight
    refine ⟨v, horigin, fun j hj => ?_, fun hl1 results hresults r hr hid => ?_⟩
    · rw [hrotated]
      exact hcoded.sign_eq hs.centre hv hj
    · obtain ⟨e, he, hscore⟩ := (hs.ranks_of_answer hk hresults).scores r hr
      rw [hid] at he
      rw [hscore, Dict.value_unique he hm, plainScore_self hs.centre hv hcoded hl1, hw, number]

end Query

namespace Query.Demo

/-- The rational numbers, in dimension 1. -/
def arrays : Arrays ℚ where
  exp _ := 1
  norm v := (v.map abs).sum
  rotate _ _ v := v
  length_rotate _ _ _ h := h
  argpartition xs k :=
    if -xs.length ≤ k ∧ k < xs.length then some (TopK.sortIndices (xs.getD · 0) xs.length) else none
  argpartition_some xs k part h := by
    split at h
    · cases h
      exact (TopK.sorts_sortIndices _ _).perm
    · cases h
  argpartition_isSome xs k h := by
    rw [if_pos (by omega)]
    rfl
  partitioned_argpartition xs k part h := by
    split at h
    · cases h
      exact (TopK.sorts_sortIndices _ _).partitioned k
    · cases h
  argsort xs := TopK.sortIndices (xs.getD · 0) xs.length
  sorts_argsort _ := TopK.sorts_sortIndices _ _

def adds : List (Use ℚ) :=
  [.live (.add 0 (lit "a") [2] (lit "working") false none),
    .live (.add 0 (lit "b") [-3] (lit "working") false none)]

/-- Of two vectors, the one with the direction of the query is its best match. -/
theorem best_answered :
    ((service arrays 1 0 ∅ adds).query (.exact arrays) [5] (1 : ℕ)).2.map
      (·.map fun r => (r.1, number r.2)) = some [(lit "a", 1)] ∧
    ∀ results, ((service arrays 1 0 ∅ adds).query (.exact arrays) [5] (1 : ℕ)).2 = some results →
      Ranks (service arrays 1 0 ∅ adds).entries
        (plainScore 1 (rotatedQuery arrays (service arrays 1 0 ∅ adds) [5])) 1 results :=
  ⟨by decide +kernel, (query_plain arrays 1 0 ∅ adds [5] (by decide)).2.1⟩

end Query.Demo
end MemoryService
end Memory
end Arcane
