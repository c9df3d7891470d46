import Arcane.Memory.PinnedRoot
import Mathlib.Data.List.Sort

/-!
# The set of pinned entries

* `pinnedMerkleRoot_of_pinnedSet`: the root is a function of the set.
* `mem_pinnedSet_add`: what an `add` does to the set.
-/

namespace Arcane
namespace Memory

open Text Trace

namespace MemoryService

variable {F E : Type} {N : Numerics F E} {s s' : MemoryService F E}

/-- The pinned entries, each with what its leaf is made of: `(trace_id, code, payload)`. -/
def pinnedSet (s : MemoryService F E) : Set (Str × Bytes × Payload F) :=
  {x | ∃ e, s.entries.get? x.1 = some e ∧ e.pinned ∧ e.bitsPacked = x.2.1 ∧ e.payload = x.2.2}

/-- The service was made by `__init__` and operations on it. -/
def Reached [Json.FloatText F] (N : Numerics F E) (s : MemoryService F E) : Prop :=
  ∃ dim decayLambdas seed tr, Run (Step N) (new N dim decayLambdas seed) tr s

section Reached

variable [Json.FloatText F]

theorem Reached.wellFormed (h : Reached N s) : s.WellFormed := by
  obtain ⟨dim, decayLambdas, seed, tr, hrun⟩ := h
  exact (MemoryService.wellFormed hrun).1

theorem Reached.step (h : Reached N s) (op : Op F E) (hop : op.IsDict) :
    Reached N (s.step N op) := by
  obtain ⟨dim, decayLambdas, seed, tr, hrun⟩ := h
  exact ⟨dim, decayLambdas, seed, _, hrun.snoc op ⟨hop, rfl⟩⟩

end Reached

/-- A trace id has one pinned entry. -/
theorem pinnedSet_unique {x y : Str × Bytes × Payload F} (hx : x ∈ s.pinnedSet)
    (hy : y ∈ s.pinnedSet) (h : x.1 = y.1) : x = y := by
  obtain ⟨e, he, -, hbits, hpayload⟩ := hx
  obtain ⟨e', he', -, hbits', hpayload'⟩ := hy
  rw [h, he', Option.some.injEq] at he
  subst he
  exact Prod.ext h (Prod.ext (hbits.symm.trans hbits') (hpayload.symm.trans hpayload'))

section Root

theorem mem_pinnedSet_of_mem (hs : s.WellFormed) {e : Entry F} (h : e ∈ s.pinnedEntries) :
    (e.traceId, e.bitsPacked, e.payload) ∈ s.pinnedSet :=
  ⟨e, Dict.mem_items.mpr (items_of_mem_pinnedEntries hs h), (mem_pinnedEntries.mp h).2, rfl, rfl⟩

theorem mem_pinnedIds {traceId : Str} :
    traceId ∈ s.pinnedIds ↔ ∃ x ∈ s.pinnedSet, x.1 = traceId := by
  simp only [pinnedIds, List.mem_mergeSort, List.mem_map, List.mem_filter, pinnedSet,
    Set.mem_ofPred_eq]
  constructor
  · rintro ⟨m, ⟨hm, hp⟩, rfl⟩
    exact ⟨(m.1, m.2.bitsPacked, m.2.payload), ⟨m.2, Dict.mem_items.mpr hm, hp, rfl, rfl⟩, rfl⟩
  · rintro ⟨x, ⟨e, he, hp, -, -⟩, rfl⟩
    exact ⟨(x.1, e), ⟨Dict.mem_items.mp he, hp⟩, rfl⟩

/-- One set of pinned entries has one list of ids. -/
theorem pinnedIds_of_pinnedSet (h : s.pinnedSet = s'.pinnedSet) : s.pinnedIds = s'.pinnedIds := by
  have hperm : s.pinnedIds.Perm s'.pinnedIds := by
    rw [List.perm_ext_iff_of_nodup nodup_pinnedIds nodup_pinnedIds]
    intro traceId
    rw [mem_pinnedIds, mem_pinnedIds, h]
  exact hperm.eq_of_sortedLE List.sortedLE_mergeSort List.sortedLE_mergeSort

variable [Json.FloatText F]

/-- The root is a function of the pinned entries. -/
theorem pinnedMerkleRoot_of_pinnedSet (hs : s.WellFormed) (hs' : s'.WellFormed)
    (h : s.pinnedSet = s'.pinnedSet) : s.pinnedMerkleRoot = s'.pinnedMerkleRoot := by
  apply pinnedMerkleRoot_congr
  refine map_eq_of_map_eq
    (?_ : s.pinnedEntries.map (·.traceId) = s'.pinnedEntries.map (·.traceId)) ?_
  · rw [map_pinnedEntries hs, map_pinnedEntries hs', pinnedIds_of_pinnedSet h]
  · intro e he e' he' hid
    obtain ⟨e₁, hget, -, hbits, hpayload⟩ := h ▸ mem_pinnedSet_of_mem hs he
    have hget' := Dict.mem_items.mpr (items_of_mem_pinnedEntries hs' he')
    rw [← hid] at hget'
    obtain rfl := Option.some.inj (hget'.symm.trans hget)
    simp only at hbits hpayload
    rw [leafText, leafText, hid, hbits, hpayload]

end Root

/-- An `add` writes the entry of its trace id, and leaves the others. -/
theorem mem_pinnedSet_add {now : Double F} {traceId : Str} {vec : List E} {kind : Str}
    {pinned : Bool} {payload : Option (Payload F)} {x : Str × Bytes × Payload F}
    (h : s.add N now traceId vec kind pinned payload = some s') :
    x ∈ s'.pinnedSet ↔ if x.1 = traceId then
      (pinned || kind = lit "pinned") = true ∧
        x.2 = ((code N s.dim s.seed (s.centre N) vec).bitsPacked, payload.getD [])
      else x ∈ s.pinnedSet := by
  obtain ⟨-, -, e, rfl, -, hbits, hpayload, hpinned⟩ := add_eq_some h
  simp only [pinnedSet, Set.mem_ofPred_eq, Dict.get?_set]
  split
  · constructor
    · rintro ⟨e', he', hp, hb, hl⟩
      cases he'
      exact ⟨hpinned.symm.trans hp, Prod.ext (hb.symm.trans hbits) (hl.symm.trans hpayload)⟩
    · rintro ⟨hp, hx⟩
      exact ⟨e, rfl, hpinned.trans hp, by rw [hx, hbits], by rw [hx, hpayload]⟩
  · rfl

end MemoryService
end Memory
end Arcane
