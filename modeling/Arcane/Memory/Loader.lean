import Arcane.Lib.Failure
import Arcane.Lib.NdArray
import Arcane.Memory.Archive

/-!
# Loading any archive

`load` on every content of an archive: arrays of any shape and any metadata, with the exceptions
that it raises. `load_archive` says that on what `save` writes it is the `load` that undoes `save`.
-/

namespace Arcane
namespace Memory
namespace Loader

open Text Python MemoryService

/-- What the code can raise. -/
inductive Exception
  | value
  | type
  | attribute
  | index
  | key
  | overflow
  | memory
deriving DecidableEq

/-- What is taken from Python and numpy. -/
structure Runtime (F E : Type) where
  numerics : Numerics F E
  unicode : Unicode
  truncate : F → ℤ
  isZero : F → Bool
  /-- `str(x)`. -/
  str : Json F → Str
  str_str : ∀ s, str (.str s) = s
  /-- `float(n)`, unless it raises `OverflowError`. -/
  floatOfInt : ℤ → Option (Double F)
  /-- `float(s)`, unless it raises `ValueError`. -/
  floatOfText : Str → Option (Double F)
  /-- `np.asarray(x, dtype=np.float32)`. -/
  asFloat32 : Json F → Except Exception (NdArray E)
  asFloat32_floats : ∀ l : List (Double F),
    asFloat32 (.arr (l.map .float)) = .ok (.ofList (l.map numerics.single))
  /-- `_build_rotation`. -/
  buildRotation : ℤ → ℤ → Except Exception Unit
  nonneg_of_buildRotation : ∀ dim seed, buildRotation dim seed = .ok () → 0 ≤ dim ∧ 0 ≤ seed

/-- The content of an archive. A member is `none` if it is missing or numpy raises on it. -/
structure Npz (F E : Type) where
  bitsPacked : Option (NdArray UInt8)
  l1s : Option (NdArray E)
  weights : Option (NdArray E)
  lastDecayTs : Option (NdArray (Double F))
  norms : Option (NdArray E)
  /-- `bytes(data["meta"])`. -/
  metadata : Option Bytes
  /-- `int(data["version"][0])`. -/
  version : Option ℤ

/-- The arrays, and the members of the metadata. -/
structure Content (F E : Type) where
  bitsPacked : NdArray UInt8
  l1s : NdArray E
  weights : NdArray E
  lastDecayTs : NdArray (Double F)
  norms : NdArray E
  members : List (Str × Json F)

/-- The entry that `load` makes. -/
structure Record (F : Type) where
  traceId : Str
  kind : Str
  pinned : Bool
  /-- The pairs that the dictionary is made of. -/
  payload : List (Json F × Json F)
  bitsPacked : NdArray UInt8
  l1 : Double F
  norm : Double F
  weight : Double F
  lastDecayTs : Double F

/-- The service that `load` makes. -/
structure Loaded (F E : Type) where
  dim : ℕ
  decayLambdas : Dict Str (Double F)
  seed : ℕ
  centroid : Option (NdArray E)
  entries : Dict Str (Record F)

section Conversions

variable {F E : Type} (R : Runtime F E)

/-- `int(x)`. -/
def toInt : Json F → Except Exception ℤ
  | .int n => .ok n
  | .bool b => .ok (if b then 1 else 0)
  | .float (.finite x) => .ok (R.truncate x)
  | .float .nan => .error .value
  | .float _ => .error .overflow
  | .str s =>
    match intOfText R.unicode s with
    | some n => .ok n
    | none => .error .value
  | _ => .error .type

/-- `float(x)`. -/
def toFloat : Json F → Except Exception (Double F)
  | .int n =>
    match R.floatOfInt n with
    | some x => .ok x
    | none => .error .overflow
  | .bool b => .ok (R.numerics.quot (if b then 1 else 0) 1)
  | .float x => .ok x
  | .str s =>
    match R.floatOfText s with
    | some x => .ok x
    | none => .error .value
  | _ => .error .type

/-- `list(x)`. -/
def toList : Json F → Except Exception (List (Json F))
  | .arr items => .ok items
  | .str s => .ok (s.map fun c => .str [c])
  | .obj members => .ok (members.map fun m => .str m.1)
  | _ => .error .type

/-- `len(x)`. -/
def len (v : Json F) : Except Exception ℕ := (toList v).map List.length

/-- `x[i]`. -/
def item (v : Json F) (i : ℕ) : Except Exception (Json F) :=
  match v with
  | .obj _ => .error .key
  | v => do
    match (← toList v)[i]? with
    | some x => .ok x
    | none => .error .index

/-- An item of what `dict` is called with: a key that can be hashed, and a value. -/
def toPair (v : Json F) : Except Exception (Json F × Json F) := do
  match ← toList v with
  | [k, x] =>
    match k with
    | .arr _ | .obj _ => .error .type
    | _ => .ok (k, x)
  | _ => .error .value

/-- `dict(x)`. -/
def toDict : Json F → Except Exception (List (Json F × Json F))
  | .obj members => .ok (members.map fun m => (.str m.1, m.2))
  | v => do (← toList v).mapM toPair

/-- `dict(x) if x is not None else {}`. -/
def toPayload : Json F → Except Exception (List (Json F × Json F))
  | .null => .ok []
  | v => toDict v

/-- `{str(k): float(v) for k, v in x.items()}`. -/
def toLambdas : Json F → Except Exception (List (Str × Double F))
  | .obj members => members.mapM fun m => (toFloat R m.2).map (m.1, ·)
  | _ => .error .attribute

/-- `x.shape[0]`. -/
def shape0 {α : Type} (a : NdArray α) : Except Exception ℕ :=
  match a.shape with
  | [] => .error .index
  | n :: _ => .ok n

/-- `a[i]`. -/
def row {α : Type} (a : NdArray α) (i : ℕ) : Except Exception (NdArray α) :=
  match a.rows[i]? with
  | some r => .ok r
  | none => .error .index

/-- `float(a[i])`: an array of one element is taken for it. -/
def scalar {α : Type} (a : NdArray α) (i : ℕ) : Except Exception α := do
  match (← row a i).data with
  | [x] => .ok x
  | _ => .error .type

end Conversions

section Load

variable {F E : Type} (R : Runtime F E)

/-- The `with` block, all of whose exceptions end as `ValueError`. -/
def read [Json.FloatText F] (z : Npz F E) : Option (Content F E) := do
  let bitsPacked ← z.bitsPacked
  let l1s ← z.l1s
  let weights ← z.weights
  let lastDecayTs ← z.lastDecayTs
  let norms ← z.norms
  let members ← ((utf8Decode (← z.metadata)).bind Json.parse).bind asObj
  let fileVersion ← z.version
  let metaVersion ← (toInt R ((get members "version").getD (.int (-1)))).toOption
  if fileVersion ≠ metaVersion ∨ fileVersion ≠ persistVersion then none
  else some ⟨bitsPacked, l1s, weights, lastDecayTs, norms, members⟩

namespace Content

variable (c : Content F E)

/-- `meta[key]` of a key that is there. -/
def field (key : String) : Json F := (get c.members key).getD .null

def hasKeys : Bool := requiredKeys.all fun key => (get c.members key).isSome

/-- The comparison of the numbers of rows; `true` if one is not `n`. -/
def mismatched (n : ℕ) : Except Exception Bool := do
  if (← shape0 c.l1s) ≠ n then return true
  if (← shape0 c.bitsPacked) ≠ n then return true
  if (← shape0 c.weights) ≠ n then return true
  if (← shape0 c.lastDecayTs) ≠ n then return true
  if (← shape0 c.norms) ≠ n then return true
  if (← len (c.field "kinds")) ≠ n then return true
  if (← len (c.field "pinned")) ≠ n then return true
  return (← len (c.field "payloads")) ≠ n

/-- The check of the numbers of rows, whose message names one of them. -/
def checkRows (n : ℕ) : Except Exception Unit := do
  if ← c.mismatched n then
    let _ ← shape0 c.bitsPacked
    throw .value

/-- The centroid, where there is one. -/
def centroid : Except Exception (Option (NdArray E)) :=
  match c.field "centroid" with
  | .null => .ok none
  | v => (R.asFloat32 v).map some

/-- The body of the loop. -/
def entry (i : ℕ) (tid : Json F) : Except Exception (Str × Record F) := do
  let kind ← item (c.field "kinds") i
  let pinned ← item (c.field "pinned") i
  let payload ← item (c.field "payloads") i
  let payload ← toPayload payload
  let bitsPacked ← row c.bitsPacked i
  let l1 ← scalar c.l1s i
  let norm ← scalar c.norms i
  let weight ← scalar c.weights i
  let lastDecayTs ← scalar c.lastDecayTs i
  return (R.str tid,
    { traceId := R.str tid
      kind := R.str kind
      pinned := truthy R.isZero pinned
      payload := payload
      bitsPacked := bitsPacked
      l1 := R.numerics.double l1
      norm := R.numerics.double norm
      weight := R.numerics.double weight
      lastDecayTs := lastDecayTs })

end Content

/-- `load`, from the checks of the metadata on. -/
def build (c : Content F E) : Except Exception (Loaded F E) := do
  if ¬ c.hasKeys then throw .value
  let traceIds ← toList (c.field "trace_ids")
  c.checkRows traceIds.length
  let dim ← toInt R (c.field "dim")
  let lambdas ← toLambdas R (c.field "decay_lambdas")
  let seed ← toInt R (c.field "seed")
  R.buildRotation dim seed
  let centroid ← c.centroid R
  let entries ← traceIds.zipIdx.mapM fun t => c.entry R t.2 t.1
  return {
    dim := dim.toNat
    decayLambdas :=
      (MemoryService.new R.numerics dim.toNat (.ofList lambdas) seed.toNat).decayLambdas
    seed := seed.toNat
    centroid := centroid
    entries := .ofList entries }

/-- `load`. -/
def load [Json.FloatText F] (z : Npz F E) : Except Exception (Loaded F E) :=
  match read R z with
  | none => .error .value
  | some c => build R c

end Load

/-! ## What `save` writes -/

section Saved

variable {F E : Type} {R : Runtime F E}

/-- The content of the archive of a service. -/
def npzOf (a : Archive F E) (w : ℕ) (h : ∀ b ∈ a.bitsPacked, b.length = w) : Npz F E where
  bitsPacked := some (.stack w a.bitsPacked h)
  l1s := some (.ofList a.l1s)
  weights := some (.ofList a.weights)
  lastDecayTs := some (.ofList a.lastDecayTs)
  norms := some (.ofList a.norms)
  metadata := some a.metadata
  version := some a.version

def recordOf (e : Entry F) : Record F where
  traceId := e.traceId
  kind := e.kind
  pinned := e.pinned
  payload := e.payload.map fun m => (.str m.1, m.2)
  bitsPacked := .ofList e.bitsPacked
  l1 := e.l1
  norm := e.norm
  weight := e.weight
  lastDecayTs := e.lastDecayTs

def loadedOf (s : MemoryService F E) : Loaded F E where
  dim := s.dim
  decayLambdas := s.decayLambdas
  seed := s.seed
  centroid := s.centroid.map .ofList
  entries := s.entries.map recordOf

theorem scalar_ofList {α : Type} {l : List α} {i : ℕ} {x : α} (h : l[i]? = some x) :
    scalar (.ofList l) i = .ok x := by
  have hdata : ((NdArray.ofList l).rows.map (·.data))[i]? = some [x] := by
    rw [NdArray.rows_ofList, List.getElem?_map, h]
    rfl
  rw [List.getElem?_map, Option.map_eq_some_iff] at hdata
  obtain ⟨r, hr, hrdata⟩ := hdata
  have hrow : row (.ofList l) i = .ok r := by rw [row, hr]
  simp only [scalar, hrow, bind, Except.bind, hrdata]

theorem row_stack {α : Type} {w : ℕ} {l : List (List α)} (h : ∀ x ∈ l, x.length = w) {i : ℕ}
    {x : List α} (hx : l[i]? = some x) : row (.stack w l h) i = .ok (.ofList x) := by
  have hdata : ((NdArray.stack w l h).rows.map (·.data))[i]? = some x := by
    rw [NdArray.rows_stack, hx]
  rw [List.getElem?_map, Option.map_eq_some_iff] at hdata
  obtain ⟨r, hr, rfl⟩ := hdata
  have hshape : r.shape = [r.data.length] := by
    rw [NdArray.shape_of_mem_rows (List.mem_of_getElem? hr), h _ (List.mem_of_getElem? hx)]
    rfl
  have heq : r = .ofList r.data := NdArray.ext hshape rfl
  rw [row, hr, heq]
  rfl

theorem item_arr {items : List (Json F)} {i : ℕ} {v : Json F} (h : items[i]? = some v) :
    item (.arr items) i = .ok v := by
  simp only [item, toList, bind, Except.bind, h]

theorem toLambdas_json (d : Dict Str (Double F)) : toLambdas R (lambdasJson d) = .ok d.items := by
  apply Failure.mapM_of_forall₂
  rw [Dict.items_map, List.forall₂_map_left_iff, List.forall₂_same]
  exact fun _ _ => rfl

/-- The content of the archive of a service. -/
def contentOf (R : Runtime F E) (s : MemoryService F E)
    (h : ∀ e ∈ s.entries.values, e.bitsPacked.length = (s.dim + 7) / 8) : Content F E where
  bitsPacked := .stack ((s.dim + 7) / 8) (s.entries.values.map (·.bitsPacked))
    (List.forall_mem_map.mpr h)
  l1s := .ofList (s.entries.values.map fun e => R.numerics.single e.l1)
  weights := .ofList (s.entries.values.map fun e => R.numerics.single e.weight)
  lastDecayTs := .ofList (s.entries.values.map (·.lastDecayTs))
  norms := .ofList (s.entries.values.map fun e => R.numerics.single e.norm)
  members := s.metaMembers R.numerics

section Fields

variable {s : MemoryService F E} {h : ∀ e ∈ s.entries.values, e.bitsPacked.length = (s.dim + 7) / 8}

theorem field_kinds : (contentOf R s h).field "kinds" =
    .arr (s.entries.values.map fun e => .str e.kind) := rfl

theorem field_pinned : (contentOf R s h).field "pinned" =
    .arr (s.entries.values.map fun e => .bool e.pinned) := rfl

theorem field_payloads : (contentOf R s h).field "payloads" =
    .arr (s.entries.values.map fun e => .obj e.payload) := rfl

theorem centroid_contentOf :
    (contentOf R s h).centroid R = .ok (s.centroid.map .ofList) := by
  have hfield : (contentOf R s h).field "centroid" = centroidJson R.numerics s.centroid := rfl
  cases hc : s.centroid with
  | none =>
    rw [Content.centroid, hfield, hc]
    rfl
  | some c =>
    have hmap : c.map (fun x => (Json.float (R.numerics.double x) : Json F)) =
        (c.map R.numerics.double).map .float := by
      rw [List.map_map]
      rfl
    have hsingle : (c.map R.numerics.double).map R.numerics.single = c := by
      rw [List.map_map]
      exact (List.map_congr_left fun x _ => R.numerics.single_double x).trans (List.map_id _)
    have hjson : centroidJson R.numerics (some c) = .arr ((c.map R.numerics.double).map .float) :=
      congrArg Json.arr hmap
    rw [Content.centroid, hfield, hc, hjson]
    show (R.asFloat32 (.arr ((c.map R.numerics.double).map .float))).map some = _
    rw [R.asFloat32_floats, hsingle]
    rfl

theorem checkRows_contentOf :
    (contentOf R s h).checkRows s.entries.values.length = .ok () := by
  have hl1s : shape0 (contentOf R s h).l1s = .ok s.entries.values.length := by
    simp [contentOf, shape0, NdArray.ofList]
  have hbits : shape0 (contentOf R s h).bitsPacked = .ok s.entries.values.length := by
    simp [contentOf, shape0, NdArray.stack]
  have hweights : shape0 (contentOf R s h).weights = .ok s.entries.values.length := by
    simp [contentOf, shape0, NdArray.ofList]
  have hts : shape0 (contentOf R s h).lastDecayTs = .ok s.entries.values.length := by
    simp [contentOf, shape0, NdArray.ofList]
  have hnorms : shape0 (contentOf R s h).norms = .ok s.entries.values.length := by
    simp [contentOf, shape0, NdArray.ofList]
  have hlen {f : Entry F → Json F} :
      len (.arr (s.entries.values.map f)) = .ok s.entries.values.length := by
    rw [len, toList]
    exact congrArg Except.ok (List.length_map f)
  simp only [Content.checkRows, Content.mismatched, hl1s, hbits, hweights, hts, hnorms,
    field_kinds, field_pinned, field_payloads, hlen, bind, Except.bind, pure, Except.pure, ne_eq,
    not_true_eq_false, if_false, decide_false, Bool.false_eq_true]

theorem entry_contentOf {e : Entry F} {i : ℕ} (he : s.entries.values[i]? = some e) :
    (contentOf R s h).entry R i (.str e.traceId) =
      .ok (e.traceId, recordOf (rounded R.numerics e)) := by
  have hmap {β : Type} (f : Entry F → β) : (s.entries.values.map f)[i]? = some (f e) := by
    rw [List.getElem?_map, he]
    rfl
  have hbits : row (contentOf R s h).bitsPacked i = .ok (.ofList e.bitsPacked) :=
    row_stack (List.forall_mem_map.mpr h) (hmap _)
  have hl1 : scalar (contentOf R s h).l1s i = .ok (R.numerics.single e.l1) :=
    scalar_ofList (hmap fun e => R.numerics.single e.l1)
  have hnorm : scalar (contentOf R s h).norms i = .ok (R.numerics.single e.norm) :=
    scalar_ofList (hmap fun e => R.numerics.single e.norm)
  have hweight : scalar (contentOf R s h).weights i = .ok (R.numerics.single e.weight) :=
    scalar_ofList (hmap fun e => R.numerics.single e.weight)
  have hts : scalar (contentOf R s h).lastDecayTs i = .ok e.lastDecayTs := scalar_ofList (hmap _)
  simp only [Content.entry, field_kinds, field_pinned, field_payloads, item_arr (hmap _), hbits,
    hl1, hnorm, hweight, hts, bind, Except.bind, pure, Except.pure, R.str_str]
  rfl

theorem entries_contentOf (hs : s.WellFormed) :
    ∃ entries, (s.entries.values.map fun e => (.str e.traceId : Json F)).zipIdx.mapM
      (fun t => (contentOf R s h).entry R t.2 t.1) = .ok entries ∧
        Dict.ofList entries = (s.entries.map (rounded R.numerics)).map recordOf := by
  refine ⟨s.entries.values.map fun e => (e.traceId, recordOf (rounded R.numerics e)), ?_, ?_⟩
  · apply Failure.mapM_of_forall₂
    rw [List.forall₂_iff_get]
    refine ⟨by simp, fun i hi _ => ?_⟩
    have hi' : i < s.entries.values.length := by simpa using hi
    simpa using entry_contentOf (List.getElem?_eq_getElem hi')
  · have hitems : (s.entries.values.map fun e => (e.traceId, recordOf (rounded R.numerics e))) =
        ((s.entries.map (rounded R.numerics)).map recordOf).items := by
      rw [Dict.values, List.map_map, Dict.items_map, Dict.items_map, List.map_map]
      exact List.map_congr_left fun m hm => by simp [hs.keyed m hm]
    ext1
    rw [hitems, Dict.items_ofList (Dict.nodup _)]

/-- What `build` makes of the content of the archive of a service. -/
theorem build_contentOf (hs : s.WellFormed) (hrot : R.buildRotation s.dim s.seed = .ok ()) :
    build R (contentOf R s h) = .ok (loadedOf (s.reloaded R.numerics)) := by
  obtain ⟨entries, hentries, hdict⟩ := entries_contentOf (R := R) (h := h) hs
  have hkeys : (contentOf R s h).hasKeys = true := by
    simp only [Content.hasKeys, requiredKeys, List.all_cons, List.all_nil, Bool.and_true,
      Bool.and_eq_true]
    exact ⟨rfl, rfl, rfl, rfl, rfl, rfl, rfl⟩
  have hdim : toInt R ((contentOf R s h).field "dim") = .ok (s.dim : ℤ) := rfl
  have hseed : toInt R ((contentOf R s h).field "seed") = .ok (s.seed : ℤ) := rfl
  have hlambdas : toLambdas R ((contentOf R s h).field "decay_lambdas") =
      .ok s.decayLambdas.items := toLambdas_json s.decayLambdas
  have hids : toList ((contentOf R s h).field "trace_ids") =
      .ok (s.entries.values.map fun e => .str e.traceId) := rfl
  have hof : Dict.ofList s.decayLambdas.items = s.decayLambdas :=
    Dict.ext (Dict.items_ofList s.decayLambdas.nodup)
  have hrows := checkRows_contentOf (R := R) (h := h)
  have hcentroid := centroid_contentOf (R := R) (h := h)
  simp only [build, hkeys, hids, List.length_map, hrows, hdim, hlambdas, hseed, hrot, hcentroid,
    hentries, hdict, hof, bind, Except.bind, pure, Except.pure, not_true_eq_false, if_false,
    Int.toNat_natCast]
  rfl

end Fields

/-- What `save` writes is loaded back, with the scalars rounded. -/
theorem load_archive [Json.FloatText F] {s : MemoryService F E} (hs : s.WellFormed)
    (hrot : R.buildRotation s.dim s.seed = .ok ()) {a : Archive F E}
    (ha : s.save R.numerics = some a) (hw : ∀ b ∈ a.bitsPacked, b.length = (s.dim + 7) / 8) :
    load R (npzOf a ((s.dim + 7) / 8) hw) = .ok (loadedOf (s.reloaded R.numerics)) := by
  rw [save, Option.map_eq_some_iff] at ha
  obtain ⟨b, hb, rfl⟩ := ha
  have hread : read R (npzOf (s.archive R.numerics b) ((s.dim + 7) / 8) hw) =
      some (contentOf R s (List.forall_mem_map.mp hw)) := by
    have hmeta := metadata_save R.numerics hs hb
    have hversion : (toInt R
        ((get (s.metaMembers R.numerics) "version").getD (.int (-1)))).toOption =
        some persistVersion := rfl
    simp only [read, npzOf, archive, hmeta, hversion, asObj, Option.bind_eq_bind, Option.bind_some,
      ne_eq, not_true_eq_false, or_self, if_false]
    rfl
  rw [load, hread]
  exact build_contentOf hs hrot

end Saved

end Loader
end Memory
end Arcane
