import Arcane.Lib.Json
import Arcane.Lib.Merkle
import Arcane.Lib.Sha256

/-!
# The memory service

`MemoryService` keeps one 1-bit code for each trace id, in the order in which the ids were first
added. Vectors are those that `np.asarray(vec, dtype=np.float32).reshape(-1)` makes. A raised
exception is `none`, or a flag beside the state that it leaves behind.
-/

namespace Arcane
namespace Memory

open Text

/-- The floating point arithmetic of Python (`F`, 64 bits) and of numpy's arrays (`E`, 32 bits). -/
structure Numerics (F E : Type) where
  /-- `np.float32(x)`. -/
  single : Double F → E
  /-- `float(x)`. -/
  double : E → Double F
  single_double : ∀ x, single (double x) = x
  /-- `a / b`. -/
  quot : ℕ → ℕ → Double F
  add : Double F → Double F → Double F
  sub : Double F → Double F → Double F
  div : Double F → Double F → Double F
  mul : Double F → Double F → Double F
  neg : Double F → Double F
  lt : Double F → Double F → Bool
  le : Double F → Double F → Bool
  /-- `math.exp`, which raises `OverflowError`. -/
  exp : Double F → Option (Double F)
  subE : E → E → E
  divE : E → Double F → E
  /-- `x >= 0`. -/
  nonneg : E → Bool
  /-- `np.linalg.norm`. -/
  norm : List E → Double F
  /-- `norm == 0.0`. -/
  isZero : Double F → Bool
  /-- `np.abs(x).sum()`. -/
  l1 : List E → Double F
  /-- The product with `_build_rotation(dim, seed).T`. -/
  rotate : ℕ → ℕ → List E → List E
  length_rotate : ∀ dim seed v, v.length = dim → (rotate dim seed v).length = dim
  /-- `approx_inner / l1_safe * weights`, from the rotated query and the code, `l1` and weight of
  each entry. -/
  scan : List E → List (Bytes × Double F × Double F) → List (Double F)
  length_scan : ∀ q rows, (scan q rows).length = rows.length
  /-- The indices of the first `k` scores in their order; `np.argpartition` raises `ValueError` for
  some negative `k`. -/
  top : List (Double F) → ℤ → Option (List ℕ)
  top_isSome : ∀ scores k, 0 < k → (top scores k).isSome
  lt_of_mem_top : ∀ scores k is, top scores k = some is → ∀ i ∈ is, i < scores.length

/-- `np.packbits`: the first bit of a byte is its highest. -/
def npPackbits (bits : List Bool) : Bytes :=
  (List.range ((bits.length + 7) / 8)).map fun i =>
    (List.range 8).foldl (fun b j => 2 * b + if bits.getD (8 * i + j) false then 1 else 0) 0

/-- `_pack_bits`. -/
def packBits (signed : List Bool) (dim : ℕ) : Bytes :=
  npPackbits (if dim % 8 ≠ 0 then signed ++ List.replicate (8 - dim % 8) false else signed)

abbrev Payload (F : Type) := List (Str × Json F)

/-- `_Entry`. -/
structure Entry (F : Type) where
  traceId : Str
  kind : Str
  pinned : Bool
  payload : Payload F
  bitsPacked : Bytes
  l1 : Double F
  norm : Double F
  weight : Double F
  lastDecayTs : Double F

structure MemoryService (F E : Type) where
  dim : ℕ
  decayLambdas : Dict Str (Double F)
  seed : ℕ
  centroid : Option (List E)
  /-- By trace id. -/
  entries : Dict Str (Entry F)

def validKinds : List Str := [lit "working", lit "episodic", lit "semantic", lit "pinned"]

/-- `sort_keys=True, ensure_ascii=False, separators=(",", ":")`. -/
def canonicalStyle : Json.Style where
  escapes _ := false
  spaced := false
  sortKeys := true

namespace MemoryService

variable {F E : Type} (N : Numerics F E)

def defaultLambdas : Dict Str (Double F) := .ofList
  [(lit "working", N.quot 1 86400), (lit "episodic", N.quot 1 (7 * 86400)),
    (lit "semantic", N.quot 1 (90 * 86400))]

theorem items_defaultLambdas : (defaultLambdas N).items =
    [(lit "working", N.quot 1 86400), (lit "episodic", N.quot 1 (7 * 86400)),
      (lit "semantic", N.quot 1 (90 * 86400))] := by
  apply Dict.items_ofList
  simp only [Assoc.keys, List.map_cons, List.map_nil]
  decide

/-- `__init__`. -/
def new (dim : ℕ) (decayLambdas : Dict Str (Double F)) (seed : ℕ) : MemoryService F E where
  dim := dim
  decayLambdas := if decayLambdas.items.isEmpty then defaultLambdas N else decayLambdas
  seed := seed
  centroid := none
  entries := ∅

variable (s : MemoryService F E)

def setCentroid (vec : Option (List E)) : Option (MemoryService F E) :=
  if s.entries.items.length > 0 then none
  else
    match vec with
    | none => some { s with centroid := none }
    | some c => if c.length ≠ s.dim then none else some { s with centroid := some c }

def zeros (dim : ℕ) : List E := List.replicate dim (N.single (N.quot 0 1))

/-- The vector that the encoder centers on: the origin when none was set. -/
def centre : List E := s.centroid.getD (zeros N s.dim)

/-- `_ensure_centroid`. -/
def ensureCentroid : MemoryService F E := { s with centroid := some (s.centre N) }

/-- What `_encode` makes of a vector: `(rotated, bits_packed, l1, norm)`. -/
structure Code (F E : Type) where
  rotated : List E
  bitsPacked : Bytes
  l1 : Double F
  norm : Double F

/-- The unit vector that is rotated, and the norm of its entry. -/
def unit (c v : List E) : List E × Double F :=
  let centered := List.zipWith N.subE v c
  let norm := N.norm centered
  if N.isZero norm then
    let rawNorm := N.norm v
    (if N.isZero rawNorm then zeros N v.length else v.map (N.divE · rawNorm), rawNorm)
  else (centered.map (N.divE · norm), norm)

/-- `_encode` as a function of the dimension, the seed, the centroid and the vector. -/
def code (dim seed : ℕ) (c v : List E) : Code F E :=
  let (unit, norm) := unit N c v
  let rotated := N.rotate dim seed unit
  ⟨rotated, packBits (rotated.map N.nonneg) dim, N.l1 rotated, norm⟩

/-- `_encode`: it raises `ValueError` on another dimension, and arms the centroid. -/
def encode (vec : List E) : Option (MemoryService F E × Code F E) :=
  if vec.length ≠ s.dim then none
  else some (s.ensureCentroid N, code N s.dim s.seed (s.centre N) vec)

/-- `add` at the time `now`; a `ValueError` leaves the state unchanged. -/
def add (now : Double F) (traceId : Str) (vec : List E) (kind : Str) (pinned : Bool)
    (payload : Option (Payload F)) : Option (MemoryService F E) :=
  if kind ∉ validKinds then none
  else
    (s.encode N vec).map fun (s, c) =>
      let e : Entry F :=
        { traceId := traceId
          kind := if pinned then lit "pinned" else kind
          pinned := pinned || kind = lit "pinned"
          payload := payload.getD []
          bitsPacked := c.bitsPacked
          l1 := c.l1
          norm := c.norm
          weight := N.quot 1 1
          lastDecayTs := now }
      { s with entries := s.entries.set traceId e }

/-- `query`: the state, and the results unless it raised `ValueError`. -/
def query (vec : List E) (k : ℤ) : MemoryService F E × Option (List (Str × Double F)) :=
  if s.entries.items.length = 0 then (s, some [])
  else
    match s.encode N vec with
    | none => (s, none)
    | some (s, c) =>
      let ids := s.entries.keys
      let rows := s.entries.values.map fun e => (e.bitsPacked, e.l1, e.weight)
      let scored := N.scan c.rotated rows
      (s, (N.top scored k).map fun order =>
        order.filterMap fun j => ids[j]?.bind fun tid => scored[j]?.map (tid, ·))

/-- The body of the loop of `decay_step`. -/
def decayed (now : Double F) (e : Entry F) : Option (Entry F) :=
  if e.pinned then some { e with lastDecayTs := now }
  else
    let zero := N.quot 0 1
    let elapsed := N.sub now e.lastDecayTs
    let dt := if N.lt zero elapsed then elapsed else zero
    let lam := (s.decayLambdas.get? e.kind).getD zero
    (N.exp (N.mul (N.neg lam) dt)).map fun f =>
      { e with weight := N.mul e.weight f, lastDecayTs := now }

/-- Not in `to_drop`. -/
def kept (e : Entry F) : Bool := e.pinned || !N.lt e.weight (N.quot 5 100)

/-- `decay_step`: the state, and whether `math.exp` raised, after which nothing is dropped. -/
def decayStep (now : Double F) : MemoryService F E × Bool :=
  let (entries, raised) := s.entries.mapUntil (s.decayed N now)
  ({ s with entries := if raised then entries else entries.filter (kept N) }, raised)

section Root

variable [Json.FloatText F]

/-- What `_pinned_leaf` hashes; `encode` raises `UnicodeEncodeError` on a surrogate. -/
def leafText (e : Entry F) : Option Bytes := do
  let id ← utf8 e.traceId
  let payload ← utf8 (Json.render canonicalStyle (.obj e.payload))
  return id ++ 0 :: e.bitsPacked ++ 0 :: payload

/-- `_pinned_leaf`. -/
def pinnedLeaf (e : Entry F) : Option Bytes := (leafText e).map sha256

/-- `hashlib.sha256(layer[i] + layer[i + 1]).digest()`. -/
def node (a b : Bytes) : Bytes := sha256 (a ++ b)

/-- The pinned entries in the order of their trace ids. -/
def pinnedEntries : List (Entry F) :=
  (s.entries.values.filter (·.pinned)).mergeSort fun a b => a.traceId ≤ b.traceId

/-- `pinned_merkle_root`. -/
def pinnedMerkleRoot : Option Bytes :=
  if s.pinnedEntries.isEmpty then some (sha256 [])
  else do Merkle.root node (← s.pinnedEntries.mapM pinnedLeaf)

end Root

end MemoryService
end Memory
end Arcane
