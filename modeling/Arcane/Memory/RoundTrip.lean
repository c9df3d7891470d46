import Arcane.Memory.Live
import Arcane.Memory.PinnedSet

/-!
# What is loaded of a saved service

* `save_isSome_iff`: a service can be saved unless a string of it holds a surrogate.
* `Storable`: what every service that the operations make keeps for its archive.
* `load_save_iff`: a saved service is loaded as it was, with its weights rounded.
-/

namespace Arcane
namespace Memory

open Text

/-- `np.linalg.norm` and the sum of a 32-bit array are 32-bit numbers. -/
structure Numerics.Sums32 {F E : Type} (N : Numerics F E) : Prop where
  l1 : ∀ v, N.double (N.single (N.l1 v)) = N.l1 v
  norm : ∀ v, N.double (N.single (N.norm v)) = N.norm v

namespace MemoryService

variable {F E : Type} {N : Numerics F E} {s s' : MemoryService F E}

/-- No trace id, no string of a payload and no name of a decay constant holds a surrogate. -/
structure NoSurrogate (s : MemoryService F E) : Prop where
  traceIds : ∀ m ∈ s.entries.items, ∀ c ∈ m.1, IsScalar c
  payloads : ∀ m ∈ s.entries.items, Json.Scalar (.obj m.2.payload)
  decayLambdas : ∀ m ∈ s.decayLambdas.items, ∀ c ∈ m.1, IsScalar c

def mapWeights (s : MemoryService F E) (f : Double F → Double F) : MemoryService F E :=
  { s with entries := s.entries.map fun e => { e with weight := f e.weight } }

/-- `s'` is `s` with the weights rounded to 32 bits. -/
structure Same [Json.FloatText F] (N : Numerics F E) (s s' : MemoryService F E) : Prop where
  entries : s'.entries.items = s.entries.items.map fun m =>
    (m.1, { m.2 with weight := N.double (N.single m.2.weight) })
  dim : s'.dim = s.dim
  seed : s'.seed = s.seed
  decayLambdas : s'.decayLambdas = s.decayLambdas
  centroid : s'.centroid = s.centroid
  pinnedMerkleRoot : s'.pinnedMerkleRoot = s.pinnedMerkleRoot
  encode : ∀ vec, (s'.encode N vec).map (·.2) = (s.encode N vec).map (·.2)

/-! ## Saving -/

/-- The kind is one of `VALID_KINDS`, and the scalars are 32-bit floats. -/
structure Entry32 (N : Numerics F E) (e : Entry F) : Prop where
  kind : e.kind ∈ validKinds
  l1 : N.double (N.single e.l1) = e.l1
  norm : N.double (N.single e.norm) = e.norm

/-- What an archive of a service can hold of it. -/
structure Storable (N : Numerics F E) (s : MemoryService F E) : Prop where
  decayLambdas : s.decayLambdas.items.isEmpty = false
  entries : ∀ m ∈ s.entries.items, Entry32 N m.2

theorem scalar_validKinds : ∀ kind ∈ validKinds, ∀ c ∈ kind, IsScalar c :=
  Json.scalar_keys ["working", "episodic", "semantic", "pinned"] (by decide)

theorem scalar_arr {α : Type} {l : List α} {f : α → Json F} :
    Json.Scalar (.arr (l.map f)) ↔ ∀ x ∈ l, Json.Scalar (f x) := by
  rw [Json.Scalar, Json.all_arr, List.forall_mem_map]
  exact and_iff_right trivial

theorem scalar_str {x : Str} : Json.Scalar (.str x : Json F) ↔ ∀ c ∈ x, IsScalar c := Iff.rfl

theorem scalar_centroidJson (c : Option (List E)) : Json.Scalar (centroidJson N c) := by
  cases c with
  | none => trivial
  | some c => exact scalar_arr.mpr fun _ _ => trivial

theorem scalar_lambdasJson {d : Dict Str (Double F)} :
    Json.Scalar (lambdasJson d) ↔ ∀ m ∈ d.items, ∀ c ∈ m.1, IsScalar c := by
  have hkeys : Assoc.keys (d.map Json.float).items = d.items.map (·.1) := by
    rw [Assoc.keys, Dict.items_map, List.map_map]
    rfl
  have hvalues : ∀ m ∈ (d.map Json.float).items, Json.All Json.scalarHere m.2 := by
    rw [Dict.items_map, List.forall_mem_map]
    exact fun _ _ => trivial
  rw [lambdasJson, Json.Scalar, Json.all_obj, and_iff_left hvalues]
  show (∀ k ∈ Assoc.keys (d.map Json.float).items, ∀ c ∈ k, IsScalar c) ↔ _
  rw [hkeys, List.forall_mem_map]

/-- No string of the metadata holds a surrogate if none of the service does. -/
theorem scalar_meta (hs : s.WellFormed) (h : s.Storable N) :
    Json.Scalar (.obj (s.metaMembers N)) ↔ s.NoSurrogate := by
  have hkeys : ∀ k ∈ Assoc.keys (s.metaMembers N), ∀ c ∈ k, IsScalar c :=
    Json.scalar_keys metaKeys (by decide)
  have hids : (∀ e ∈ s.entries.values, ∀ c ∈ e.traceId, IsScalar c) ↔
      ∀ m ∈ s.entries.items, ∀ c ∈ m.1, IsScalar c := by
    rw [Dict.values, List.forall_mem_map]
    exact forall₂_congr fun m hm => by rw [hs.keyed m hm]
  have hkinds : ∀ e ∈ s.entries.values, ∀ c ∈ e.kind, IsScalar c := by
    rw [Dict.values, List.forall_mem_map]
    exact fun m hm => scalar_validKinds _ (h.entries m hm).kind
  have hpayloads : (∀ e ∈ s.entries.values, Json.Scalar (.obj e.payload)) ↔
      ∀ m ∈ s.entries.items, Json.Scalar (.obj m.2.payload) := by
    rw [Dict.values, List.forall_mem_map]
  have htrivial : ∀ e ∈ s.entries.values, Json.Scalar (.bool e.pinned : Json F) :=
    fun _ _ => trivial
  rw [Json.Scalar, Json.all_obj, and_iff_right (show Json.scalarHere (.obj _) from hkeys)]
  change (∀ m ∈ s.metaMembers N, Json.Scalar m.2) ↔ _
  simp only [metaMembers, List.forall_mem_cons, scalar_arr, scalar_str, scalar_lambdasJson,
    scalar_centroidJson, hids, hpayloads]
  constructor
  · rintro ⟨-, -, -, hlambdas, -, htraceIds, -, -, hpayloads, -⟩
    exact ⟨htraceIds, hpayloads, hlambdas⟩
  · rintro ⟨htraceIds, hpayloads, hlambdas⟩
    exact ⟨trivial, trivial, trivial, hlambdas, trivial, htraceIds, hkinds, htrivial, hpayloads,
      by simp⟩

/-- A service can be saved unless a string of it holds a surrogate. -/
theorem save_isSome_iff [Json.FloatText F] (hs : s.WellFormed) (h : s.Storable N) :
    (s.save N).isSome ↔ s.NoSurrogate := by
  rw [save, Option.isSome_map, utf8_isSome_iff, Json.scalar_render_iff metaStyle fun _ => rfl]
  exact scalar_meta hs h

section Storable

variable {e e' : Entry F} {now : Double F} {traceId : Str} {vec : List E} {kind : Str}
  {pinned : Bool} {payload : Option (Payload F)}

theorem entry32_newEntry (hN : N.Sums32) (hkind : kind ∈ validKinds) :
    Entry32 N (s.newEntry N now traceId vec kind pinned payload) where
  kind := by
    show (if pinned then lit "pinned" else kind) ∈ validKinds
    split
    · decide
    · exact hkind
  l1 := hN.l1 _
  norm := by
    show N.double (N.single (unit N (s.centre N) vec).2) = (unit N (s.centre N) vec).2
    simp only [unit]
    split
    · exact hN.norm _
    · exact hN.norm _

theorem Entry32.decayed (he : Entry32 N e) (h : s.decayed N now e = some e') : Entry32 N e' := by
  unfold MemoryService.decayed at h
  split at h
  · cases h
    exact ⟨he.kind, he.l1, he.norm⟩
  · obtain ⟨f, -, rfl⟩ := Option.map_eq_some_iff.mp h
    exact ⟨he.kind, he.l1, he.norm⟩

theorem Entry32.rounded (he : Entry32 N e) : Entry32 N (rounded N e) where
  kind := he.kind
  l1 := congrArg N.double (N.single_double _)
  norm := congrArg N.double (N.single_double _)

theorem Entry32.rounded_eq (he : Entry32 N e) :
    MemoryService.rounded N e = { e with weight := N.double (N.single e.weight) } := by
  rw [MemoryService.rounded, he.l1, he.norm]

/-- Nothing is reloaded but the weights. -/
theorem Storable.reloaded_eq (h : s.Storable N) :
    s.reloaded N = s.mapWeights fun w => N.double (N.single w) := by
  have hentries : s.entries.map (MemoryService.rounded N) =
      s.entries.map fun e => { e with weight := N.double (N.single e.weight) } := by
    ext1
    exact List.map_congr_left fun m hm => by rw [(h.entries m hm).rounded_eq]
  rw [reloaded, if_neg (Bool.eq_false_iff.mp h.decayLambdas), hentries, mapWeights]

theorem storable_new (N : Numerics F E) (dim : ℕ) (decayLambdas : Dict Str (Double F))
    (seed : ℕ) : (new N dim decayLambdas seed).Storable N where
  decayLambdas := by
    show (if decayLambdas.items.isEmpty then defaultLambdas N else decayLambdas).items.isEmpty =
      false
    split
    · rw [items_defaultLambdas]
      rfl
    · next h => exact Bool.eq_false_iff.mpr h
  entries m hm := by cases hm

variable [Json.FloatText F]

theorem Storable.step (hN : N.Sums32) (hs : s.WellFormed) (h : s.Storable N) (op : Op F E) :
    (s.step N op).Storable N := by
  cases op with
  | setCentroid vec =>
    refine ⟨?_, fun m hm => h.entries m ?_⟩
    · rw [show (s.step N (.setCentroid vec)).decayLambdas = s.decayLambdas from
        lambdas_live (N := N) (.setCentroid vec)]
      exact h.decayLambdas
    · rwa [MemoryService.step, entries_setCentroid] at hm
  | query vec k =>
    refine ⟨?_, fun m hm => h.entries m ?_⟩
    · rw [show (s.step N (.query vec k)).decayLambdas = s.decayLambdas from
        lambdas_live (N := N) (.query vec k)]
      exact h.decayLambdas
    · rwa [MemoryService.step, entries_query] at hm
  | decayStep now =>
    refine ⟨h.decayLambdas, fun m hm => ?_⟩
    rcases mem_decayStep hm with hm | ⟨e, he, hdecayed⟩
    · exact h.entries m hm
    · exact (h.entries _ he).decayed hdecayed
  | add now traceId vec kind pinned payload =>
    cases ha : s.add N now traceId vec kind pinned payload with
    | none => rwa [MemoryService.step, ha]
    | some s' =>
      obtain ⟨hkind, -, rfl⟩ := add_eq_some_iff.mp ha
      rw [MemoryService.step, ha, Option.getD_some]
      refine ⟨h.decayLambdas, fun m hm => ?_⟩
      rcases Dict.mem_items_set.mp hm with rfl | ⟨hm, -⟩
      · exact entry32_newEntry hN hkind
      · exact h.entries m hm
  | saveLoad =>
    cases ha : s.save N with
    | none => rwa [MemoryService.step, ha]
    | some a =>
      rw [MemoryService.step, ha, Option.bind_some, load_save N hs ha, Option.getD_some]
      refine ⟨?_, fun m hm => ?_⟩
      · rw [h.reloaded_eq]
        exact h.decayLambdas
      · obtain ⟨x, hx, rfl⟩ := List.mem_map.mp hm
        exact (h.entries x hx).rounded

theorem Reached.storable (hN : N.Sums32) (h : Reached N s) : s.Storable N := by
  obtain ⟨dim, decayLambdas, seed, tr, hrun⟩ := h
  have hboth : s.WellFormed ∧ s.Storable N := by
    apply hrun.invariant (I := fun s => s.WellFormed ∧ s.Storable N)
    · exact ⟨wellFormed_new dim decayLambdas seed, storable_new N dim decayLambdas seed⟩
    · rintro s op s' ⟨hs, h⟩ hst
      refine ⟨hs.step hst, ?_⟩
      rw [hst.2]
      exact h.step hN hs op
  exact hboth.2

end Storable

section Load

variable [Json.FloatText F]

/-- Weights do not enter the root. -/
theorem pinnedMerkleRoot_mapWeights (s : MemoryService F E) (f : Double F → Double F) :
    (s.mapWeights f).pinnedMerkleRoot = s.pinnedMerkleRoot := by
  let weigh (e : Entry F) : Entry F := { e with weight := f e.weight }
  have hvalues : (s.mapWeights f).entries.values.filter (·.pinned) =
      (s.entries.values.filter (·.pinned)).map weigh := by
    rw [mapWeights, Dict.values, Dict.values, Dict.items_map, List.map_map, List.filter_map,
      List.filter_map, List.map_map]
    rfl
  have hpinned : (s.mapWeights f).pinnedEntries = s.pinnedEntries.map weigh := by
    rw [pinnedEntries, pinnedEntries, hvalues]
    symm
    apply List.map_mergeSort
    exact fun _ _ _ _ => rfl
  apply pinnedMerkleRoot_congr
  rw [hpinned, List.map_map]
  rfl

theorem Storable.same (h : s.Storable N) : Same N s (s.reloaded N) := by
  rw [h.reloaded_eq]
  refine ⟨rfl, rfl, rfl, rfl, rfl, pinnedMerkleRoot_mapWeights s _, fun vec => ?_⟩
  by_cases hlen : vec.length = s.dim
  · simp [MemoryService.encode, hlen, mapWeights, centre]
  · simp [MemoryService.encode, hlen, mapWeights]

/-- What is loaded of a saved service is the same service with its weights rounded, and every
service can be saved but one with a surrogate in a string. -/
theorem load_save_iff (hN : N.Sums32) (h : Reached N s) :
    (∃ a s', s.save N = some a ∧ load N a = some s' ∧ Same N s s') ↔ s.NoSurrogate := by
  have hs := h.wellFormed
  have hstorable := h.storable hN
  rw [← save_isSome_iff hs hstorable, Option.isSome_iff_exists]
  constructor
  · rintro ⟨a, s', ha, -, -⟩
    exact ⟨a, ha⟩
  · rintro ⟨a, ha⟩
    exact ⟨a, _, ha, load_save N hs ha, hstorable.same⟩

end Load

namespace Demo

theorem sums32_numerics : numerics.Sums32 where
  l1 _ := rfl
  norm _ := rfl

theorem reached_final {ops : List (Op Flt Flt)} (h : ∀ op ∈ ops, op.IsDict) :
    Reached numerics (final start ops) := ⟨1, lambdas, 0, _, run_steps h start⟩

theorem pinnedLater_reached : Reached numerics pinnedLater := by
  apply reached_final
  simp [Op.IsDict, trace, draft, rule, Json.Keyed, Json.All, Json.AllMembers, Json.keyedHere]

/-- A service with two entries is loaded as it was saved. -/
theorem pinnedLater_loaded : ∃ a s', pinnedLater.save numerics = some a ∧
    load numerics a = some s' ∧ Same numerics pinnedLater s' := by
  have hsave : (pinnedLater.save numerics).isSome := by decide +kernel
  have hs := (save_isSome_iff pinnedLater_reached.wellFormed
    (pinnedLater_reached.storable sums32_numerics)).mp hsave
  exact (load_save_iff sums32_numerics pinnedLater_reached).mpr hs

/-- The trace id is half of a surrogate pair. -/
def lone : MemoryService Flt Flt :=
  final start [.add now [⟨0xD800, by decide⟩] [.one] (lit "working") false none]

/-- A trace id with a surrogate is accepted, and cannot be saved. -/
theorem lone_not_loaded : Reached numerics lone ∧ ¬ ∃ a s', lone.save numerics = some a ∧
    load numerics a = some s' ∧ Same numerics lone s' := by
  have hsave : (lone.save numerics).isNone := by decide +kernel
  refine ⟨reached_final (by simp [Op.IsDict]), ?_⟩
  rintro ⟨a, s', ha, -, -⟩
  rw [ha] at hsave
  cases hsave

end Demo

end MemoryService
end Memory
end Arcane
