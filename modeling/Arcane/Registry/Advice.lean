import Arcane.Lib.Python
import Arcane.Memory.Service

/-!
# Published advice

`RegistryService.publish_advice` up to the transaction: the reasoning trace goes into the memory
that the registry shares with the dark pool, before anything is sent. A raised exception is `none`.
-/

namespace Arcane
namespace Registry

open Text Memory

/-- `AdviceBody`, without what only the transaction is made of. -/
structure AdviceBody (F : Type) where
  trace : Str
  vec : Option (List (Double F))
  traceId : Option Str
  kind : Str

/-- What the registry takes from other packages. -/
structure Packages (F E : Type) where
  /-- The body that FastAPI reads from the JSON of a request, or else a 422. -/
  adviceBody : Json F → Option (AdviceBody F)
  /-- `_Embedder.embed`. -/
  embed : Str → Option (List E)
  keccak : Bytes → Bytes

section

variable {F E : Type} (N : Numerics F E) (P : Packages F E)

def AdviceBody.vector (dim : ℕ) (body : AdviceBody F) : Option (List E) :=
  match body.vec with
  | some vec => if vec.length ≠ dim then none else some (vec.map N.single)
  | none => P.embed body.trace

/-- `body.trace_id or ("advice-" + keccak(body.trace.encode()).hex()[:16])`. -/
def AdviceBody.id (body : AdviceBody F) : Option Str :=
  match body.traceId with
  | some (c :: id) => some (c :: id)
  | _ => (utf8 body.trace).map fun b => lit "advice-" ++ (Python.hex (P.keccak b)).take 16

def advicePayload (agentId : ℤ) (trace : Str) : Payload F :=
  [(lit "agent_id", .int agentId), (lit "trace", .str trace)]

/-- `publish_advice`: the memory that it leaves. -/
def publishAdvice (memory : MemoryService F E) (now : Double F) (agentId : ℤ)
    (body : AdviceBody F) : Option (MemoryService F E) := do
  let vec ← body.vector N P memory.dim
  let traceId ← body.id P
  memory.add N now traceId vec body.kind false (some (advicePayload agentId body.trace))

end

end Registry
end Arcane
