import Arcane.Lib.JsonText
import Arcane.Lib.Python
import Arcane.Memory.Service

/-!
# Saving and loading a memory service

`save` writes the codes and scalars of the entries as arrays and the rest as JSON; `load` checks an
archive and makes a service of it. What is loaded back is what was saved, with the scalars of the
entries rounded to 32 bits (`load_save`).
-/

namespace Arcane
namespace Memory

open Text Python

/-- The arrays of the `npz` file. -/
structure Archive (F E : Type) where
  bitsPacked : List Bytes
  l1s : List E
  weights : List E
  lastDecayTs : List (Double F)
  norms : List E
  metadata : Bytes
  version : ℤ

def persistVersion : ℤ := 3

/-- `sort_keys=False, ensure_ascii=False, separators=(",", ":")`. -/
def metaStyle : Json.Style where
  escapes _ := false
  spaced := false
  sortKeys := false

namespace MemoryService

variable {F E : Type} (N : Numerics F E) [Json.FloatText F]

section Save

variable (s : MemoryService F E)

def lambdasJson (decayLambdas : Dict Str (Double F)) : Json F :=
  .obj (decayLambdas.map .float).items

def centroidJson : Option (List E) → Json F
  | none => .null
  | some c => .arr (c.map fun x => .float (N.double x))

def metaMembers : List (Str × Json F) :=
  let entries := s.entries.values
  [(lit "version", .int persistVersion),
    (lit "dim", .int s.dim),
    (lit "seed", .int s.seed),
    (lit "decay_lambdas", lambdasJson s.decayLambdas),
    (lit "centroid", centroidJson N s.centroid),
    (lit "trace_ids", .arr (entries.map fun e => .str e.traceId)),
    (lit "kinds", .arr (entries.map fun e => .str e.kind)),
    (lit "pinned", .arr (entries.map fun e => .bool e.pinned)),
    (lit "payloads", .arr (entries.map fun e => .obj e.payload))]

def archive (metadata : Bytes) : Archive F E :=
  let entries := s.entries.values
  { bitsPacked := entries.map (·.bitsPacked)
    l1s := entries.map fun e => N.single e.l1
    weights := entries.map fun e => N.single e.weight
    lastDecayTs := entries.map (·.lastDecayTs)
    norms := entries.map fun e => N.single e.norm
    metadata := metadata
    version := persistVersion }

/-- `save`; `encode` raises `UnicodeEncodeError` on a surrogate. -/
def save : Option (Archive F E) :=
  (utf8 (Json.render metaStyle (.obj (s.metaMembers N)))).map (s.archive N)

end Save

section Load

def asInt : Json F → Option ℤ
  | .int n => some n
  | _ => none

def asFloat : Json F → Option (Double F)
  | .float x => some x
  | _ => none

def asStr : Json F → Option Str
  | .str s => some s
  | _ => none

def asBool : Json F → Option Bool
  | .bool b => some b
  | _ => none

def asArr : Json F → Option (List (Json F))
  | .arr items => some items
  | _ => none

def asObj : Json F → Option (List (Str × Json F))
  | .obj members => some members
  | _ => none

/-- `dict(payload) if payload is not None else {}`. -/
def asPayload : Json F → Option (Payload F)
  | .obj members => some members
  | .null => some []
  | _ => none

/-- `int(meta[key])` of a number that `__init__` takes. -/
def asNat (v : Json F) : Option ℕ := (asInt v).bind fun n => if 0 ≤ n then some n.toNat else none

def requiredKeys : List String :=
  ["dim", "seed", "decay_lambdas", "trace_ids", "kinds", "pinned", "payloads"]

def loadCentroid : Option (Json F) → Option (Option (List E))
  | none | some .null => some none
  | some v => do
    let items ← asArr v
    return some (← items.mapM fun x => (asFloat x).map N.single)

def loadEntry (row : Str × Str × Bool × Payload F × Bytes × E × E × E × Double F) :
    Str × Entry F :=
  let (traceId, kind, pinned, payload, bitsPacked, l1, norm, weight, lastDecayTs) := row
  (traceId,
    { traceId := traceId
      kind := kind
      pinned := pinned
      payload := payload
      bitsPacked := bitsPacked
      l1 := N.double l1
      norm := N.double norm
      weight := N.double weight
      lastDecayTs := lastDecayTs })

/-- The version checks. -/
def versionOk (a : Archive F E) (members : List (Str × Json F)) : Bool :=
  let metaVersion := match get members "version" with
    | none => some (-1)
    | some v => asInt v
  metaVersion = some a.version ∧ a.version = persistVersion

/-- The entries, unless an array has another number of rows. -/
def loadEntries (a : Archive F E) (traceIds kinds pinned payloads : List (Json F)) :
    Option (List (Str × Entry F)) := do
  let n := traceIds.length
  if a.l1s.length = n ∧ a.bitsPacked.length = n ∧ a.weights.length = n ∧
      a.lastDecayTs.length = n ∧ a.norms.length = n ∧ kinds.length = n ∧ pinned.length = n ∧
      payloads.length = n then
    let traceIds ← traceIds.mapM asStr
    let kinds ← kinds.mapM asStr
    let pinned ← pinned.mapM asBool
    let payloads ← payloads.mapM asPayload
    let rows := traceIds.zip (kinds.zip (pinned.zip (payloads.zip (a.bitsPacked.zip
      (a.l1s.zip (a.norms.zip (a.weights.zip a.lastDecayTs)))))))
    some (rows.map (loadEntry N))
  else none

/-- `load`. It also raises where a field of the metadata has another type than `save` writes. -/
def load (a : Archive F E) : Option (MemoryService F E) := do
  let members ← ((utf8Decode a.metadata).bind Json.parse).bind asObj
  if versionOk a members && requiredKeys.all fun key => (get members key).isSome then
    let traceIds ← (get members "trace_ids").bind asArr
    let kinds ← (get members "kinds").bind asArr
    let pinned ← (get members "pinned").bind asArr
    let payloads ← (get members "payloads").bind asArr
    let entries ← loadEntries N a traceIds kinds pinned payloads
    let dim ← (get members "dim").bind asNat
    let seed ← (get members "seed").bind asNat
    let lambdas ← (get members "decay_lambdas").bind asObj
    let lambdas ← lambdas.mapM fun m => (asFloat m.2).map (m.1, ·)
    let centroid ← loadCentroid N (get members "centroid")
    some { new N dim (.ofList lambdas) seed with
      centroid := centroid
      entries := .ofList entries }
  else none

end Load

section RoundTrip

variable {s : MemoryService F E}

/-- What holds of every service that the operations make. -/
structure WellFormed (s : MemoryService F E) : Prop where
  centroid : ∀ c, s.centroid = some c → c.length = s.dim
  keyed : ∀ m ∈ s.entries.items, m.2.traceId = m.1
  packed : ∀ m ∈ s.entries.items, m.2.bitsPacked.length = (s.dim + 7) / 8
  payload : ∀ m ∈ s.entries.items, Json.Keyed (.obj m.2.payload)

/-- An entry with its scalars rounded. -/
def rounded (e : Entry F) : Entry F :=
  { e with
    l1 := N.double (N.single e.l1)
    norm := N.double (N.single e.norm)
    weight := N.double (N.single e.weight) }

/-- What `load` makes of an archive of `s`. -/
def reloaded (s : MemoryService F E) : MemoryService F E :=
  { s with
    decayLambdas := if s.decayLambdas.items.isEmpty then defaultLambdas N else s.decayLambdas
    entries := s.entries.map (rounded N) }

theorem mapM_map {α β γ : Type} {f : α → β} {g : β → Option γ} {h : α → γ} {l : List α}
    (hg : ∀ x ∈ l, g (f x) = some (h x)) : (l.map f).mapM g = some (l.map h) := by
  induction l with
  | nil => rfl
  | cons x l ih =>
    rw [List.map_cons, List.mapM_cons, hg x (by simp), ih fun y hy => hg y (by simp [hy])]
    rfl

def metaKeys : List String :=
  ["version", "dim", "seed", "decay_lambdas", "centroid", "trace_ids", "kinds", "pinned",
    "payloads"]

omit [Json.FloatText F] in
theorem keyed_meta (hs : s.WellFormed) : Json.Keyed (.obj (s.metaMembers N)) := by
  have harr : ∀ {α : Type} (l : List α) (f : α → Json F), (∀ x ∈ l, Json.Keyed (f x)) →
      Json.Keyed (.arr (l.map f)) := by
    intro α l f hf
    refine Json.all_arr.mpr ⟨trivial, fun v hv => ?_⟩
    obtain ⟨x, hx, rfl⟩ := List.mem_map.mp hv
    exact hf x hx
  apply Json.keyed_obj metaKeys rfl (by decide +kernel)
  simp only [metaMembers, List.forall_mem_cons]
  refine ⟨trivial, trivial, trivial, ?_, ?_, ?_, ?_, ?_, ?_, by simp⟩
  · refine Json.all_obj.mpr ⟨(s.decayLambdas.map Json.float).nodup, fun m hm => ?_⟩
    obtain ⟨x, -, rfl⟩ := List.mem_map.mp hm
    trivial
  · cases s.centroid with
    | none => trivial
    | some c => exact harr c _ fun x _ => trivial
  · exact harr _ _ fun e _ => trivial
  · exact harr _ _ fun e _ => trivial
  · exact harr _ _ fun e _ => trivial
  · refine harr _ _ fun e he => ?_
    obtain ⟨m, hm, rfl⟩ := List.mem_map.mp he
    exact hs.payload m hm

/-- The metadata is read back. -/
theorem metadata_save (hs : s.WellFormed) {b : Bytes}
    (h : utf8 (Json.render metaStyle (.obj (s.metaMembers N))) = some b) :
    (utf8Decode b).bind Json.parse = some (Json.obj (s.metaMembers N)) := by
  have hall := utf8_isSome_iff.mp (Option.isSome_of_eq_some h)
  have hscalar := Json.scalar_of_render metaStyle (fun _ => rfl) hall
  have hplain := Json.plain_iff.mpr ⟨hscalar, keyed_meta N hs⟩
  rw [utf8Decode_utf8 h, Option.bind_some]
  exact Json.parse_render metaStyle rfl hplain

omit [Json.FloatText F] in
theorem loadCentroid_json (c : Option (List E)) :
    loadCentroid N (some (centroidJson N c)) = some c := by
  cases c with
  | none => rfl
  | some c =>
    have hm : (c.map fun x => Json.float (N.double x)).mapM (fun x => (asFloat x).map N.single) =
        some (c.map id) :=
      mapM_map fun x _ => by simp [asFloat, N.single_double]
    simp [centroidJson, loadCentroid, asArr, hm]

omit [Json.FloatText F] in
theorem loadEntries_archive (b : Bytes) :
    loadEntries N (s.archive N b) (s.entries.values.map fun e => .str e.traceId)
      (s.entries.values.map fun e => .str e.kind) (s.entries.values.map fun e => .bool e.pinned)
      (s.entries.values.map fun e => .obj e.payload) =
    some (s.entries.values.map fun e => (e.traceId, rounded N e)) := by
  generalize he : s.entries.values = entries
  have hids : (entries.map fun e => (Json.str e.traceId : Json F)).mapM asStr =
      some (entries.map (·.traceId)) := mapM_map fun _ _ => rfl
  have hkinds : (entries.map fun e => (Json.str e.kind : Json F)).mapM asStr =
      some (entries.map (·.kind)) := mapM_map fun _ _ => rfl
  have hpinned : (entries.map fun e => (Json.bool e.pinned : Json F)).mapM asBool =
      some (entries.map (·.pinned)) := mapM_map fun _ _ => rfl
  have hpayloads : (entries.map fun e => Json.obj e.payload).mapM asPayload =
      some (entries.map (·.payload)) := mapM_map fun _ _ => rfl
  simp only [loadEntries, archive, he, List.length_map, and_self, if_true, hids, hkinds, hpinned,
    hpayloads, Option.bind_eq_bind, Option.bind_some, List.zip_map', List.map_map]
  rfl

omit [Json.FloatText F] in
/-- The entries that are loaded are those of a dictionary. -/
theorem ofList_rounded (hs : s.WellFormed) :
    Dict.ofList (s.entries.values.map fun e => (e.traceId, rounded N e)) =
      s.entries.map (rounded N) := by
  have h : (s.entries.values.map fun e => (e.traceId, rounded N e)) =
      (s.entries.map (rounded N)).items := by
    rw [Dict.values, List.map_map]
    exact List.map_congr_left fun m hm => by simp [hs.keyed m hm]
  ext1
  rw [h, Dict.items_ofList (Dict.nodup _)]

/-- What is loaded is what was saved. -/
theorem load_save (hs : s.WellFormed) {a : Archive F E} (h : s.save N = some a) :
    load N a = some (s.reloaded N) := by
  rw [save, Option.map_eq_some_iff] at h
  obtain ⟨b, hb, rfl⟩ := h
  have hmeta := metadata_save N hs hb
  have hversion : get (s.metaMembers N) "version" = some (.int persistVersion) := rfl
  have hdim : get (s.metaMembers N) "dim" = some (.int s.dim) := rfl
  have hseed : get (s.metaMembers N) "seed" = some (.int s.seed) := rfl
  have hlambdas : get (s.metaMembers N) "decay_lambdas" = some (lambdasJson s.decayLambdas) := rfl
  have hcentroid : get (s.metaMembers N) "centroid" = some (centroidJson N s.centroid) := rfl
  have hids : get (s.metaMembers N) "trace_ids" =
    some (.arr (s.entries.values.map fun e => .str e.traceId)) := rfl
  have hkinds : get (s.metaMembers N) "kinds" =
    some (.arr (s.entries.values.map fun e => .str e.kind)) := rfl
  have hpinned : get (s.metaMembers N) "pinned" =
    some (.arr (s.entries.values.map fun e => .bool e.pinned)) := rfl
  have hpayloads : get (s.metaMembers N) "payloads" =
    some (.arr (s.entries.values.map fun e => .obj e.payload)) := rfl
  have hlist : (s.decayLambdas.map Json.float).items.mapM (fun m => (asFloat m.2).map (m.1, ·)) =
      some (s.decayLambdas.items.map id) := mapM_map fun _ _ => rfl
  have hof : Dict.ofList s.decayLambdas.items = s.decayLambdas :=
    Dict.ext (Dict.items_ofList s.decayLambdas.nodup)
  generalize s.metaMembers N = ms at *
  have hok : (versionOk (s.archive N b) ms && requiredKeys.all fun key => (get ms key).isSome) =
      true := by
    simp [versionOk, requiredKeys, archive, asInt, hversion, hdim, hseed, hlambdas, hids, hkinds,
      hpinned, hpayloads]
  have hentries := loadEntries_archive N (s := s) b
  show ((utf8Decode b).bind Json.parse).bind asObj >>= _ = _
  rw [hmeta]
  simp only [asObj, Option.bind_eq_bind, Option.bind_some, hok, if_true, hids, hkinds, hpinned,
    hpayloads, hdim, hseed, hlambdas, hcentroid, asArr, hentries, lambdasJson, hlist,
    loadCentroid_json, ofList_rounded N hs, List.map_id, hof, new]
  simp [asNat, asInt, reloaded]

end RoundTrip

end MemoryService
end Memory
end Arcane
