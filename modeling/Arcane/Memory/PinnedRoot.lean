import Arcane.Memory.History
import Arcane.Lib.Traverse

/-!
# What the pinned root says

* `pinnedTriples_eq_of_root_eq`: services of one dimension with the same root have the same pinned
  entries.
* `pinnedMerkleRoot_eq`: services whose pinned entries were last written with the same vectors and
  payloads have the same root, whatever else happened to them.
-/

namespace Arcane
namespace Memory

open Text Trace

namespace MemoryService

variable {F E : Type} {N : Numerics F E}

/-- `pinned_ids`. -/
def pinnedIds (s : MemoryService F E) : List Str :=
  ((s.entries.items.filter (·.2.pinned)).map (·.1)).mergeSort fun a b => a ≤ b

section Order

variable {s : MemoryService F E}

theorem mem_pinnedEntries {e : Entry F} :
    e ∈ s.pinnedEntries ↔ e ∈ s.entries.values ∧ e.pinned := by
  rw [pinnedEntries, List.mem_mergeSort, List.mem_filter]

theorem items_of_mem_pinnedEntries (hs : s.WellFormed) {e : Entry F} (h : e ∈ s.pinnedEntries) :
    (e.traceId, e) ∈ s.entries.items := by
  obtain ⟨m, hm, rfl⟩ := List.mem_map.mp (mem_pinnedEntries.mp h).1
  rw [hs.keyed m hm]
  exact hm

/-- The pinned entries in the order of `pinned_ids`. -/
theorem map_pinnedEntries (hs : s.WellFormed) :
    s.pinnedEntries.map (·.traceId) = s.pinnedIds := by
  have hids : (s.entries.values.filter (·.pinned)).map (·.traceId) =
      (s.entries.items.filter (·.2.pinned)).map (·.1) := by
    rw [Dict.values, List.filter_map, List.map_map]
    exact List.map_congr_left fun m hm => hs.keyed m (List.mem_filter.mp hm).1
  rw [pinnedIds, ← hids, pinnedEntries]
  apply List.map_mergeSort
  exact fun _ _ _ _ => rfl

theorem nodup_pinnedIds : s.pinnedIds.Nodup := by
  rw [pinnedIds, (List.mergeSort_perm _ _).nodup_iff]
  exact s.entries.nodup.sublist (List.Sublist.map _ List.filter_sublist)

end Order

theorem map_eq_of_map_eq {α β γ δ : Type} {f : α → γ} {f' : β → γ} {g : α → δ} {g' : β → δ}
    {l : List α} {l' : List β} (h : l.map f = l'.map f')
    (hg : ∀ a ∈ l, ∀ b ∈ l', f a = f' b → g a = g' b) : l.map g = l'.map g' := by
  induction l generalizing l' with
  | nil =>
    rw [List.map_nil, eq_comm, List.map_eq_nil_iff] at h
    rw [h]
    rfl
  | cons a l ih =>
    cases l' with
    | nil => cases h
    | cons b l' =>
      rw [List.map_cons, List.map_cons, List.cons.injEq] at h
      rw [List.map_cons, List.map_cons, hg a (by simp) b (by simp) h.1,
        ih h.2 fun x hx y hy => hg x (by simp [hx]) y (by simp [hy])]

variable [Json.FloatText F]

section Binding

variable {s s' : MemoryService F E}

def canonicalJson (payload : Payload F) : Str := Json.render canonicalStyle (.obj payload)

/-- What a pinned entry says. -/
def triple (e : Entry F) : Str × Bytes × Str := (e.traceId, e.bitsPacked, canonicalJson e.payload)

def pinnedTriples (s : MemoryService F E) : List (Str × Bytes × Str) := s.pinnedEntries.map triple

/-- The strings that are hashed for leaves. -/
def leafTexts (s : MemoryService F E) : List Bytes := s.pinnedEntries.filterMap leafText

/-- The concatenations of two digests that are hashed for the nodes above the leaves. -/
def joinedTexts (s : MemoryService F E) : List Bytes :=
  (Merkle.pairs node (s.leafTexts.map sha256)).map fun p => p.1 ++ p.2

/-- The strings that `pinned_merkle_root` hashes. -/
def hashed (s : MemoryService F E) : List Bytes :=
  if s.pinnedEntries.isEmpty then [[]] else s.leafTexts ++ s.joinedTexts

/-- Lists cut at the last `x` of each. -/
theorem append_cons_inj {α : Type} {x : α} {a a' b b' : List α} (h : a ++ x :: b = a' ++ x :: b')
    (hb : x ∉ b) (hb' : x ∉ b') : a = a' ∧ b = b' := by
  rcases List.append_eq_append_iff.mp h with ⟨t, rfl, ht⟩ | ⟨t, rfl, ht⟩
  · rcases t with _ | ⟨y, t⟩
    · simpa using ht
    · rw [List.cons_append, List.cons.injEq] at ht
      exact absurd (by rw [ht.2]; simp) hb
  · rcases t with _ | ⟨y, t⟩
    · simpa [eq_comm] using ht
    · rw [List.cons_append, List.cons.injEq] at ht
      exact absurd (by rw [ht.2]; simp) hb'

/-- The three parts of a leaf are read off from its end: the JSON text holds no zero byte, and the
code has a known length. -/
theorem triple_of_leafText {e e' : Entry F} {t : Bytes} (h : leafText e = some t)
    (h' : leafText e' = some t) (hlen : e.bitsPacked.length = e'.bitsPacked.length) :
    triple e = triple e' := by
  simp only [leafText, Option.bind_eq_bind, Option.bind_eq_some_iff, Option.pure_def,
    Option.some.injEq] at h h'
  obtain ⟨id, hid, json, hjson, rfl⟩ := h
  obtain ⟨id', hid', json', hjson', heq⟩ := h'
  have hz : (0 : UInt8) ∉ json := zero_notMem_utf8 hjson (Json.zero_notMem_render _ _)
  have hz' : (0 : UInt8) ∉ json' := zero_notMem_utf8 hjson' (Json.zero_notMem_render _ _)
  obtain ⟨hleft, rfl⟩ := append_cons_inj heq.symm hz hz'
  obtain ⟨rfl, hbits⟩ := List.append_inj' hleft (by simp [hlen])
  have hb : e.bitsPacked = e'.bitsPacked := (List.cons.inj hbits).2
  rw [triple, triple, utf8_inj hid hid', hb, canonicalJson, canonicalJson, utf8_inj hjson hjson']

theorem map_filterMap {α β : Type} {f : α → Option β} {l : List α} (h : ∀ a ∈ l, (f a).isSome) :
    (l.filterMap f).map some = l.map f := by
  induction l with
  | nil => rfl
  | cons a l ih =>
    obtain ⟨b, hb⟩ := Option.isSome_iff_exists.mp (h a (by simp))
    rw [List.filterMap_cons_some hb, List.map_cons, List.map_cons, hb,
      ih fun x hx => h x (by simp [hx])]

/-- No leaf has failed where there is a root. -/
theorem leafText_of_root {r : Bytes} (hr : s.pinnedMerkleRoot = some r) :
    s.leafTexts.map some = s.pinnedEntries.map leafText := by
  apply map_filterMap
  intro e he
  have hne : s.pinnedEntries.isEmpty = false := by
    rw [List.isEmpty_eq_false_iff]
    exact List.ne_nil_of_mem he
  simp only [pinnedMerkleRoot, hne, Bool.false_eq_true, if_false, Option.bind_eq_bind,
    Option.bind_eq_some_iff] at hr
  obtain ⟨leaves, hl, -⟩ := hr
  have hmem : pinnedLeaf e ∈ leaves.map some := by
    rw [← Traverse.map_of_mapM hl]
    exact List.mem_map_of_mem he
  obtain ⟨b, -, hb⟩ := List.mem_map.mp hmem
  obtain ⟨t, ht, -⟩ := Option.map_eq_some_iff.mp hb.symm
  rw [ht]
  rfl

theorem root_leafTexts {r : Bytes} (hr : s.pinnedMerkleRoot = some r)
    (hne : s.pinnedEntries.isEmpty = false) :
    Merkle.root node (s.leafTexts.map sha256) = some r := by
  have htexts := leafText_of_root hr
  simp only [pinnedMerkleRoot, hne, Bool.false_eq_true, if_false, Option.bind_eq_bind,
    Option.bind_eq_some_iff] at hr
  obtain ⟨leaves, hl, hroot⟩ := hr
  have hleaves : (s.leafTexts.map sha256).map some = leaves.map some := by
    calc (s.leafTexts.map sha256).map some
        = (s.leafTexts.map some).map (Option.map sha256) := by simp
      _ = s.pinnedEntries.map pinnedLeaf := by
        rw [htexts, List.map_map]
        rfl
      _ = leaves.map some := Traverse.map_of_mapM hl
  rw [List.map_injective_iff.mpr (Option.some_injective _) hleaves]
  exact hroot

/-- The digests that are joined are 32 bytes long. -/
theorem length_of_mem_pairs {l : List Bytes} {p : Bytes × Bytes}
    (h : p ∈ Merkle.pairs node (l.map sha256)) : p.1.length = 32 ∧ p.2.length = 32 := by
  apply Merkle.forall_pairs (Q := fun x => x.length = 32) _ _ _ p h
  · exact fun a b => length_sha256 _
  · intro x hx
    obtain ⟨t, -, rfl⟩ := List.mem_map.mp hx
    exact length_sha256 t

/-- What a root is the digest of. -/
theorem root_hashed {r : Bytes} (hr : s.pinnedMerkleRoot = some r) :
    ∃ t ∈ s.hashed, r = sha256 t ∧ (t = [] ↔ s.pinnedEntries.isEmpty) := by
  cases hne : s.pinnedEntries.isEmpty with
  | true =>
    rw [pinnedMerkleRoot, if_pos hne] at hr
    exact ⟨[], by simp [hashed, hne], (Option.some.inj hr).symm, by simp⟩
  | false =>
    simp only [hashed, hne, Bool.false_eq_true, if_false, List.mem_append, iff_false]
    rcases Merkle.of_root node (root_leafTexts hr hne) with h | ⟨p, hp, rfl⟩
    · obtain ⟨t, ht, rfl⟩ := List.mem_map.mp h
      refine ⟨t, .inl ht, rfl, ?_⟩
      obtain ⟨e, -, he⟩ := List.mem_filterMap.mp ht
      simp only [leafText, Option.bind_eq_bind, Option.bind_eq_some_iff, Option.pure_def,
        Option.some.injEq] at he
      obtain ⟨_, -, _, -, rfl⟩ := he
      simp
    · refine ⟨p.1 ++ p.2, .inr (List.mem_map_of_mem hp), rfl, ?_⟩
      have hlen := (length_of_mem_pairs hp).1
      intro h
      rw [(List.append_eq_nil_iff.mp h).1] at hlen
      cases hlen

/-- The texts of the leaves differ, since their trace ids do. -/
theorem nodup_leafTexts (hs : s.WellFormed) {r : Bytes} (hr : s.pinnedMerkleRoot = some r) :
    s.leafTexts.Nodup := by
  have hids : (s.pinnedEntries.map (·.traceId)).Nodup := by
    rw [map_pinnedEntries hs]
    exact nodup_pinnedIds
  refine List.Nodup.of_map some ?_
  rw [leafText_of_root hr]
  refine List.Nodup.map_on ?_ (List.Nodup.of_map _ hids)
  intro e he e' he' heq
  apply List.inj_on_of_nodup_map hids he he'
  have hmem : leafText e ∈ s.leafTexts.map some := by
    rw [leafText_of_root hr]
    exact List.mem_map_of_mem he
  obtain ⟨t, -, ht⟩ := List.mem_map.mp hmem
  have hlen : e.bitsPacked.length = e'.bitsPacked.length := by
    rw [hs.packed _ (items_of_mem_pinnedEntries hs he),
      hs.packed _ (items_of_mem_pinnedEntries hs he')]
  have htriple := triple_of_leafText ht.symm (heq.symm.trans ht.symm) hlen
  exact congrArg Prod.fst htriple

variable {tr tr' : List (Trace.Step (MemoryService F E) (Op F E))} {dim seed seed' : ℕ}
  {decayLambdas decayLambdas' : Dict Str (Double F)}

/-- Services of one dimension with the same pinned root have the same pinned entries, if SHA-256 is
injective on the strings hashed for the two roots and no leaf is the concatenation of two of the
digests joined in them. -/
theorem pinnedTriples_eq_of_root_eq (h : Run (Step N) (new N dim decayLambdas seed) tr s)
    (h' : Run (Step N) (new N dim decayLambdas' seed') tr' s')
    (hinj : Set.InjOn sha256 {t | t ∈ s.hashed ∨ t ∈ s'.hashed})
    (hleaf : ∀ t, t ∈ s.leafTexts ∨ t ∈ s'.leafTexts → t ∉ s.joinedTexts ∧ t ∉ s'.joinedTexts)
    {r : Bytes} (hr : s.pinnedMerkleRoot = some r) (hr' : s'.pinnedMerkleRoot = some r) :
    s.pinnedTriples = s'.pinnedTriples := by
  obtain ⟨hs, hdim, -⟩ := wellFormed h
  obtain ⟨hs', hdim', -⟩ := wellFormed h'
  -- A root without pinned entries is the digest of the empty string, and no other root is.
  have hempty : s.pinnedEntries.isEmpty = s'.pinnedEntries.isEmpty := by
    obtain ⟨t, ht, rfl, hnil⟩ := root_hashed hr
    obtain ⟨t', ht', heq, hnil'⟩ := root_hashed hr'
    rw [hinj (.inl ht) (.inr ht') heq, hnil'] at hnil
    exact Bool.eq_iff_iff.mpr hnil.symm
  cases hne : s.pinnedEntries.isEmpty with
  | true =>
    rw [hne, eq_comm] at hempty
    rw [pinnedTriples, pinnedTriples, List.isEmpty_iff.mp hne, List.isEmpty_iff.mp hempty]
  | false =>
    rw [hne, eq_comm] at hempty
    have htexts : ∀ t, t ∈ s.leafTexts ∨ t ∈ s'.leafTexts → t ∈ s.hashed ∨ t ∈ s'.hashed := by
      simp only [hashed, hne, hempty, Bool.false_eq_true, if_false, List.mem_append]
      exact fun t ht => ht.imp .inl .inl
    have hjoined : ∀ p, p ∈ Merkle.pairs node (s.leafTexts.map sha256) ∨
        p ∈ Merkle.pairs node (s'.leafTexts.map sha256) →
        p.1.length = 32 ∧ (p.1 ++ p.2 ∈ s.joinedTexts ∨ p.1 ++ p.2 ∈ s'.joinedTexts) := by
      rintro p (hp | hp)
      · exact ⟨(length_of_mem_pairs hp).1, .inl (List.mem_map_of_mem hp)⟩
      · exact ⟨(length_of_mem_pairs hp).1, .inr (List.mem_map_of_mem hp)⟩
    have hhashed : ∀ t, t ∈ s.joinedTexts ∨ t ∈ s'.joinedTexts → t ∈ s.hashed ∨ t ∈ s'.hashed := by
      simp only [hashed, hne, hempty, Bool.false_eq_true, if_false, List.mem_append]
      exact fun t ht => ht.imp .inr .inr
    have hnode : ∀ p, p ∈ Merkle.pairs node (s.leafTexts.map sha256) ∨
        p ∈ Merkle.pairs node (s'.leafTexts.map sha256) →
        ∀ t, t ∈ s.leafTexts ∨ t ∈ s'.leafTexts → sha256 t ≠ node p.1 p.2 := by
      intro p hp t ht heq
      have hj := (hjoined p hp).2
      rw [hinj (htexts t ht) (hhashed _ hj) heq] at ht
      exact hj.elim (hleaf _ ht).1 (hleaf _ ht).2
    have hleaves : s.leafTexts.map sha256 = s'.leafTexts.map sha256 := by
      refine Merkle.eq_of_root_eq ?_ ?_ ?_ ?_ (root_leafTexts hr hne) (root_leafTexts hr' hempty)
      · intro p hp q hq heq
        have ht := hinj (hhashed _ (hjoined p hp).2) (hhashed _ (hjoined q hq).2) heq
        obtain ⟨h₁, h₂⟩ := List.append_inj ht ((hjoined p hp).1.trans (hjoined q hq).1.symm)
        exact Prod.ext h₁ h₂
      · intro p hp
        constructor <;> intro hm <;> obtain ⟨t, ht, heq⟩ := List.mem_map.mp hm
        · exact hnode p hp t (.inl ht) heq
        · exact hnode p hp t (.inr ht) heq
      · exact (nodup_leafTexts hs hr).map_on fun t ht u hu heq =>
          hinj (htexts t (.inl ht)) (htexts u (.inl hu)) heq
      · exact (nodup_leafTexts hs' hr').map_on fun t ht u hu heq =>
          hinj (htexts t (.inr ht)) (htexts u (.inr hu)) heq
    have heq : s.leafTexts.map some = s'.leafTexts.map some :=
      map_eq_of_map_eq hleaves fun t ht u hu htu => by
        rw [hinj (htexts t (.inl ht)) (htexts u (.inr hu)) htu]
    rw [leafText_of_root hr, leafText_of_root hr'] at heq
    apply map_eq_of_map_eq heq
    intro e he e' he' hee
    have hmem : leafText e ∈ s.leafTexts.map some := by
      rw [leafText_of_root hr]
      exact List.mem_map_of_mem he
    obtain ⟨t, -, ht⟩ := List.mem_map.mp hmem
    apply triple_of_leafText ht.symm (hee.symm.trans ht.symm)
    rw [hs.packed _ (items_of_mem_pinnedEntries hs he),
      hs'.packed _ (items_of_mem_pinnedEntries hs' he'), hdim, hdim']

end Binding

section Determined

variable {s s' : MemoryService F E}

/-- The root is a function of what is hashed for the leaves. -/
theorem pinnedMerkleRoot_congr (h : s.pinnedEntries.map leafText = s'.pinnedEntries.map leafText) :
    s.pinnedMerkleRoot = s'.pinnedMerkleRoot := by
  have hleaf : s.pinnedEntries.map pinnedLeaf = s'.pinnedEntries.map pinnedLeaf :=
    map_eq_of_map_eq h fun a _ b _ hab => by rw [pinnedLeaf, pinnedLeaf, hab]
  have hempty : s.pinnedEntries.isEmpty = s'.pinnedEntries.isEmpty := by
    rw [← List.isEmpty_map (f := leafText), h, List.isEmpty_map]
  have hmapM : ∀ l : List (Entry F), l.mapM pinnedLeaf = (l.map pinnedLeaf).mapM id := by
    intro l
    rw [List.mapM_map]
    rfl
  rw [pinnedMerkleRoot, pinnedMerkleRoot, hempty, hmapM, hleaf, ← hmapM]

/-- The same vector and, up to the order of members, the same payload. -/
structure SameWrite (w w' : Write F E) : Prop where
  vec : w.vec = w'.vec
  payload : Json.Same (.obj w.payload) (.obj w'.payload)

variable {tr tr' : List (Trace.Step (MemoryService F E) (Op F E))} {dim seed : ℕ}
  {decayLambdas decayLambdas' : Dict Str (Double F)} {c : List E}

/-- The pinned root depends on the vectors and payloads that the pinned trace ids were last written
with, and on nothing else of the history. -/
theorem pinnedMerkleRoot_eq (h : Run (Step N) (new N dim decayLambdas seed) tr s)
    (h' : Run (Step N) (new N dim decayLambdas' seed) tr' s') (hc : Centred N c tr)
    (hc' : Centred N c tr') (hids : s.pinnedIds = s'.pinnedIds)
    (hlast : ∀ traceId ∈ s.pinnedIds, ∀ w w', lastWrite dim tr traceId = some w →
      lastWrite dim tr' traceId = some w' → SameWrite w w') :
    s.pinnedMerkleRoot = s'.pinnedMerkleRoot := by
  have hs := (wellFormed h).1
  have hs' := (wellFormed h').1
  apply pinnedMerkleRoot_congr
  refine map_eq_of_map_eq
    (?_ : s.pinnedEntries.map (·.traceId) = s'.pinnedEntries.map (·.traceId)) ?_
  · rw [map_pinnedEntries hs, map_pinnedEntries hs', hids]
  · intro e he e' he' hid
    obtain ⟨w, hw, hwr⟩ := written h hc _ (items_of_mem_pinnedEntries hs he)
    obtain ⟨w', hw', hwr'⟩ := written h' hc' _ (items_of_mem_pinnedEntries hs' he')
    have hmem : e.traceId ∈ s.pinnedIds := by
      rw [← map_pinnedEntries hs]
      exact List.mem_map_of_mem he
    obtain ⟨hvec, hpayload⟩ := hlast _ hmem w w' hw (hid ▸ hw')
    have hjson : Json.render canonicalStyle (.obj e.payload) =
        Json.render canonicalStyle (.obj e'.payload) := by
      rw [hwr.payload, hwr'.payload]
      exact hpayload.render_eq rfl
    rw [leafText, leafText, hid, hjson, hwr.bitsPacked, hwr'.bitsPacked, hvec]

end Determined

namespace Demo

/-- The numbers -1.0, 0.0 and 1.0. -/
inductive Flt where
  | minusOne
  | zero
  | one
deriving DecidableEq

def Flt.text : Flt → Str
  | .minusOne => lit "-1.0"
  | .zero => lit "0.0"
  | .one => lit "1.0"

instance : Json.FloatText Flt where
  repr := Flt.text
  ofText s := .finite (if s = lit "1.0" then .one else if s = lit "0.0" then .zero else .minusOne)
  repr_form x := by cases x <;> decide +kernel
  ofText_repr x := by cases x <;> rfl

def Flt.abs : Flt → Flt
  | .zero => .zero
  | _ => .one

/-- The encoder in dimension 1, where the rotation is the identity. -/
def numerics : Numerics Flt Flt where
  single x := match x with
    | .finite x => x
    | _ => .zero
  double := .finite
  single_double _ := rfl
  quot a _ := .finite (if a = 0 then .zero else .one)
  add x y := match x, y with
    | .finite .zero, y => y
    | x, _ => x
  sub x y := match x, y with
    | .finite .one, .finite .zero => .finite .one
    | _, _ => .finite .zero
  div x _ := x
  mul x y := match x, y with
    | .finite .one, y => y
    | _, _ => .finite .zero
  neg x := x
  lt x y := match x, y with
    | .finite .zero, .finite .one => true
    | _, _ => false
  le x y := match x, y with
    | .finite .zero, .finite .minusOne => false
    | .finite .one, .finite .minusOne => false
    | .finite .one, .finite .zero => false
    | .finite _, .finite _ => true
    | _, _ => false
  exp _ := some (.finite .one)
  subE x y := if y = .zero then x else .zero
  divE x _ := x
  nonneg x := x ≠ .minusOne
  norm v := .finite (v.headD .zero).abs
  isZero x := match x with
    | .finite .zero => true
    | _ => false
  l1 v := .finite (v.headD .zero).abs
  rotate _ _ v := v
  length_rotate _ _ _ h := h
  scan q rows := rows.map fun _ => .finite (q.headD .zero)
  length_scan _ _ := List.length_map _
  top scores k := some ((List.range scores.length).take k.toNat)
  top_isSome _ _ _ := rfl
  lt_of_mem_top := by
    rintro scores k is h i hi
    cases h
    exact List.mem_range.mp (List.mem_of_mem_take hi)

def lambdas : Dict Str (Double Flt) := ⟨[(lit "working", .finite .one)], by simp⟩

def start : MemoryService Flt Flt := new numerics 1 lambdas 0

def now : Double Flt := .finite .zero

def rule : Op Flt Flt := .add now (lit "r") [.one] (lit "pinned") true (some [(lit "a", .int 1)])

def trace : Op Flt Flt := .add now (lit "t") [.minusOne] (lit "working") false none

def draft : Op Flt Flt := .add now (lit "r") [.minusOne] (lit "working") false none

/-- The steps that a list of operations makes. -/
def steps : MemoryService Flt Flt → List (Op Flt Flt) →
    List (Trace.Step (MemoryService Flt Flt) (Op Flt Flt))
  | _, [] => []
  | s, op :: ops => ⟨s, op, s.step numerics op⟩ :: steps (s.step numerics op) ops

def final (s : MemoryService Flt Flt) (ops : List (Op Flt Flt)) : MemoryService Flt Flt :=
  ops.foldl (step numerics) s

theorem run_steps {ops : List (Op Flt Flt)} (h : ∀ op ∈ ops, op.IsDict)
    (s : MemoryService Flt Flt) : Run (Step numerics) s (steps s ops) (final s ops) := by
  induction ops generalizing s with
  | nil => exact .nil
  | cons op ops ih =>
    have h₁ : Run (Step numerics) s ([] ++ [⟨s, op, s.step numerics op⟩]) (s.step numerics op) :=
      Run.nil.snoc op ⟨h op (by simp), rfl⟩
    exact h₁.append (ih (fun x hx => h x (by simp [hx])) _)

/-- The rule pinned at once, and pinned after other entries and an earlier entry of its id. -/
def pinnedAtOnce : MemoryService Flt Flt := final start [rule]

def pinnedLater : MemoryService Flt Flt := final start [trace, draft, rule]

theorem run_pinnedAtOnce : Run (Step numerics) start (steps start [rule]) pinnedAtOnce := by
  apply run_steps
  simp [Op.IsDict, rule, Json.Keyed, Json.All, Json.AllMembers, Json.keyedHere]

theorem run_pinnedLater :
    Run (Step numerics) start (steps start [trace, draft, rule]) pinnedLater := by
  apply run_steps
  simp [Op.IsDict, trace, draft, rule, Json.Keyed, Json.All, Json.AllMembers, Json.keyedHere]

/-- What was written last of the pinned id. -/
def written : Write Flt Flt := ⟨lit "r", [.one], [(lit "a", .int 1)], true⟩

/-- The history before the last write of the rule is not seen. -/
theorem pinnedLater_root : pinnedAtOnce.pinnedMerkleRoot = pinnedLater.pinnedMerkleRoot := by
  have hids : pinnedAtOnce.pinnedIds = [lit "r"] := by decide +kernel
  have hids' : pinnedLater.pinnedIds = [lit "r"] := by decide +kernel
  apply pinnedMerkleRoot_eq (c := [.zero]) run_pinnedAtOnce run_pinnedLater
  · unfold Centred
    decide +kernel
  · unfold Centred
    decide +kernel
  · rw [hids, hids']
  · rw [hids]
    intro traceId hid w w' hw hw'
    obtain rfl := List.mem_singleton.mp hid
    have hlast : lastWrite 1 (steps start [rule]) (lit "r") = some written := rfl
    have hlast' : lastWrite 1 (steps start [trace, draft, rule]) (lit "r") = some written := rfl
    cases hlast.symm.trans hw
    cases hlast'.symm.trans hw'
    exact ⟨rfl, rfl⟩

def ruleOf (traceId : Str) (v : Flt) (payload : Payload Flt) : Op Flt Flt :=
  .add now traceId [v] (lit "pinned") true (some payload)

/-- Three rules. The id of the second ends with a NUL. -/
def rules : List (Op Flt Flt) :=
  [ruleOf (lit "r") .one [(lit "a", .int 1)], ruleOf (lit "r\x00") .minusOne [],
    ruleOf (lit "s") .one [(lit "b", .null)]]

/-- The rules among other entries and earlier entries of their ids. -/
def rulesLater : List (Op Flt Flt) :=
  [draft, ruleOf (lit "r") .one [(lit "a", .int 1)], trace, ruleOf (lit "r\x00") .minusOne [],
    ruleOf (lit "s") .minusOne [], .decayStep now, ruleOf (lit "s") .one [(lit "b", .null)]]

def histories : List (List (Op Flt Flt)) := [rules, rulesLater]

theorem run_histories {ops : List (Op Flt Flt)} (h : ops ∈ histories) :
    Run (Step numerics) start (steps start ops) (final start ops) := by
  apply run_steps
  simp only [histories, List.mem_cons, List.not_mem_nil, or_false] at h
  rcases h with rfl | rfl
  · simp [Op.IsDict, rules, ruleOf, Json.Keyed, Json.All, Json.AllMembers, Json.keyedHere]
  · simp [Op.IsDict, rulesLater, draft, trace, ruleOf, Json.Keyed, Json.All, Json.AllMembers,
      Json.keyedHere]

/-- The entries are in the order of their ids already. -/
theorem pinnedEntries_histories {ops : List (Op Flt Flt)} (h : ops ∈ histories) :
    (final start ops).pinnedEntries = (final start ops).entries.values.filter (·.pinned) := by
  apply List.mergeSort_of_pairwise
  revert ops
  decide +kernel

/-- What is hashed for the leaves. -/
def texts : List Bytes :=
  [[114, 0, 128, 0, 123, 34, 97, 34, 58, 49, 125], [114, 0, 0, 0, 0, 123, 125],
    [115, 0, 128, 0, 123, 34, 98, 34, 58, 110, 117, 108, 108, 125]]

theorem leafTexts_histories {ops : List (Op Flt Flt)} (h : ops ∈ histories) :
    (final start ops).leafTexts = texts := by
  rw [leafTexts, pinnedEntries_histories h]
  revert ops
  decide +kernel

/-- The concatenations of digests. The third leaf is joined with itself. -/
def joins : List Bytes := (Merkle.pairs node (texts.map sha256)).map fun p => p.1 ++ p.2

theorem joinedTexts_histories {ops : List (Op Flt Flt)} (h : ops ∈ histories) :
    (final start ops).joinedTexts = joins := by
  rw [joinedTexts, leafTexts_histories h, joins]

theorem hashed_histories {ops : List (Op Flt Flt)} (h : ops ∈ histories) :
    (final start ops).hashed = texts ++ joins := by
  have hne : (final start ops).pinnedEntries ≠ [] := by
    intro hnil
    have htexts := leafTexts_histories h
    rw [leafTexts, hnil] at htexts
    cases htexts
  rw [hashed, if_neg (by simpa using hne), leafTexts_histories h, joinedTexts_histories h]

/-- Leaves are shorter than two digests. -/
theorem text_notMem_joins {t : Bytes} (h : t ∈ texts) : t ∉ joins := by
  intro hjoin
  obtain ⟨p, hp, rfl⟩ := List.mem_map.mp hjoin
  obtain ⟨hleft, hright⟩ := length_of_mem_pairs hp
  have hshort : ∀ t ∈ texts, t.length < 64 := by decide
  have hlt := hshort _ h
  rw [List.length_append] at hlt
  omega

/-- Three pinned rules, under either history. -/
theorem pinnedLater_triples :
    (final start rules).pinnedTriples = (final start rulesLater).pinnedTriples ∧
    (final start rules).pinnedTriples = [(lit "r", [0x80], lit "\x7b\x22a\x22:1\x7d"),
      (lit "r\x00", [0], lit "\x7b\x7d"), (lit "s", [0x80], lit "\x7b\x22b\x22:null\x7d")] := by
  have h : rules ∈ histories := by simp [histories]
  have h' : rulesLater ∈ histories := by simp [histories]
  constructor
  · have hsome : (final start rules).pinnedMerkleRoot.isSome = true := by
      rw [pinnedMerkleRoot, pinnedEntries_histories h]
      decide +kernel
    have hnodup : ((texts ++ joins).map sha256).Nodup := by decide +kernel
    obtain ⟨r, hr⟩ := Option.isSome_iff_exists.mp hsome
    refine pinnedTriples_eq_of_root_eq (run_histories h) (run_histories h') ?_ ?_ hr ?_
    · simp only [hashed_histories h, hashed_histories h', or_self]
      exact List.inj_on_of_nodup_map hnodup
    · simp only [joinedTexts_histories, leafTexts_histories, h, h', or_self, and_self]
      exact fun t => text_notMem_joins
    · rw [← pinnedMerkleRoot_congr, hr]
      rw [pinnedEntries_histories h, pinnedEntries_histories h']
      decide +kernel
  · rw [pinnedTriples, pinnedEntries_histories h]
    decide +kernel

end Demo

end MemoryService
end Memory
end Arcane
