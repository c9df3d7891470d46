import Arcane.DarkPool.Server
import Arcane.Lib.Abi

/-!
# The advice route

`POST /agents/{id}/advice` of the registry service: `publish_advice` with its transaction, and the
answer. The handler has no `await`, so that nothing runs beside it.
-/

namespace Arcane
namespace Registry

open Text Memory DarkPool

/-- The whole `AdviceBody`. -/
structure Advice (F : Type) extends AdviceBody F where
  payload : Option Str
  symbol : Option Str
  stance : Option Str

/-- A log of a receipt. -/
structure EventLog where
  address : Option Str
  topics : Option (List Str)
  data : Option Str

structure Receipt where
  status : Option Str
  logs : Option (List EventLog)

/-- What Python or another package raises. -/
inductive Raised
  | embed (text : Str)
  | encode (text : Str)
  | encodePayload (reasoning symbol stance : Str)
  | fromHex (text : Str)
  | int (text : Str)
  | abiEncode (agentId : ℤ)
  | abiDecode (data : Bytes)

/-- What ends a publication. -/
inductive Failure
  | vector (dim length : ℕ)
  | kind (kind : Str)
  | dimension (length dim : ℕ)
  | timeout (tx : Str)
  | reverted (tx : Str)
  | rpc (text : Str)
  | raised (r : Raised)

/-- The registry service, without its memory. -/
structure RegistryService (F E : Type) where
  numerics : Numerics F E
  packages : Packages F E
  unicode : Unicode
  /-- `str.upper`. -/
  upper : Str → Str
  repr : Str → Str
  /-- `str(exc)`. -/
  str : Raised → Str
  /-- The text of a `UnicodeEncodeError`. -/
  surrogates : Str
  /-- The validated body, or the body of the 422. -/
  advice : Json F → Except Bytes (Advice F)
  registryAddr : Str
  /-- `_sign_and_broadcast` to an address: the hash of the transaction. -/
  signAndBroadcast : Str → Bytes → Except Str Str
  /-- What the node answers to the polls for a receipt before the deadline. -/
  polls : Str → List (Except Str (Option Receipt))
  /-- `abi_decode(["bytes", "uint256"], data)`. -/
  abiDecode : Bytes → Option (Bytes × ℕ)

/-- The value, unless there is none. -/
def orFail {α : Type} (f : Failure) : Option α → Except Failure α
  | some a => .ok a
  | none => .error f

def adviceStances : List Str :=
  [lit "long", lit "exit", lit "vol", lit "reduce", lit "neutral"]

/-- `KIND_ADVICE_PUBLISHED`. -/
def kindAdvicePublished : ℕ := 0

namespace RegistryService

variable {F E : Type} (R : RegistryService F E)

/-- `str(exc)` of a failure. -/
def failureText : Failure → Str
  | .vector dim length =>
    lit "vec must be length " ++ natText dim ++ lit ", got (" ++ natText length ++ lit ",)"
  | .kind kind =>
    lit "kind must be one of ('working', 'episodic', 'semantic', 'pinned'), got " ++ R.repr kind
  | .dimension length dim =>
    lit "vec dim " ++ natText length ++ lit " != index dim " ++ natText dim
  | .timeout tx => lit "receipt for " ++ tx ++ lit " not seen within 90.0s"
  | .reverted tx => lit "recordAction reverted (tx " ++ tx ++ lit ")"
  | .rpc text => text
  | .raised r => R.str r

/-! ## Encoding -/

/-- `encode_advice_payload`. -/
def encodeAdvicePayload (reasoning symbol stance : Str) : Option Bytes := do
  let text ← utf8 reasoning
  let sym ← utf8 (R.upper symbol)
  let stc ← utf8 (if stance ∈ adviceStances then stance else lit "neutral")
  let first := Abi.bytes text
  let second := Abi.bytes sym
  return Abi.word 128 ++ Abi.word (128 + first.length) ++
    Abi.word (128 + first.length + second.length) ++ R.packages.keccak text ++
    (first ++ second ++ Abi.bytes stc)

/-- `encode_record_action`. -/
def encodeRecordAction (agentId : ℤ) (kind : ℕ) (payload : Bytes) : Option Str :=
  if 0 ≤ agentId ∧ agentId < 2 ^ 256 then
    (utf8 (lit "recordAction(uint256,uint8,bytes)")).map fun signature =>
      lit "0x" ++ Python.hex ((R.packages.keccak signature).take 4 ++
        (Abi.word agentId.toNat ++ Abi.word kind ++ Abi.word 96 ++ Abi.bytes payload))
  else none

/-- The payload of the action. -/
def payload (body : Advice F) : Except Failure Bytes :=
  match body.payload with
  | some p => orFail (.raised (.fromHex p)) (Python.fromHex (Python.remove0x p))
  | none =>
    let symbol := body.symbol.getD []
    let stance := match body.stance with
      | some (c :: stance) => c :: stance
      | _ => lit "neutral"
    orFail (.raised (.encodePayload body.trace symbol stance))
      (R.encodeAdvicePayload body.trace symbol stance)

/-! ## The transaction -/

/-- `cast_send` with raw calldata. -/
def castSend (addr data : Str) : Except Failure Str := do
  let bytes ← orFail (.raised (.fromHex data)) (Python.fromHex (Python.remove0x data))
  (R.signAndBroadcast addr bytes).mapError .rpc

/-- The loop of `wait_for_receipt`. -/
def firstReceipt (tx : Str) : List (Except Str (Option Receipt)) → Except Failure Receipt
  | [] => .error (.timeout tx)
  | .error text :: _ => .error (.rpc text)
  | .ok (some receipt) :: _ => .ok receipt
  | .ok none :: answers => firstReceipt tx answers

def waitForReceipt (tx : Str) : Except Failure Receipt := firstReceipt tx (R.polls tx)

/-- `int(s, 16)`. -/
def int16 (s : Str) : Except Failure ℤ :=
  orFail (.raised (.int s)) (Python.intOfText16 R.unicode s)

/-- `AGENT_ACTION_TOPIC`. -/
def agentActionTopic : Str :=
  lit "0x" ++ Python.hex (R.packages.keccak
    ((utf8 (lit "AgentAction(uint256,uint8,bytes,uint256)")).getD []))

/-- An optional number of an event. -/
def topicNumber : Option Str → Except Failure (Json F)
  | none => .ok .null
  | some topic => (R.int16 topic).map .int

/-- The event that a log holds. -/
def decodeAction (indexed : List Str) (data : Option Str) : Except Failure (Json F) := do
  let agentId ← R.topicNumber indexed[0]?
  let kind ← R.topicNumber indexed[1]?
  let text := Python.remove0x (match data with
    | some (c :: data) => c :: data
    | _ => lit "0x")
  let bytes ← orFail (.raised (.fromHex text)) (Python.fromHex text)
  let (payload, timestamp) ← orFail (.raised (.abiDecode bytes)) (R.abiDecode bytes)
  return .obj [(lit "agent_id", agentId), (lit "kind", kind),
    (lit "payload", .str (lit "0x" ++ Python.hex payload)), (lit "timestamp", .int timestamp)]

/-- The loop of `find_agent_action_in_receipt`. -/
def findAction : List EventLog → Except Failure (Json F)
  | [] => .ok .null
  | log :: logs =>
    if R.unicode.lower (log.address.getD []) ≠ R.unicode.lower R.registryAddr then findAction logs
    else
      match log.topics.getD [] with
      | [] => findAction logs
      | topic :: indexed =>
        if R.unicode.lower topic ≠ R.unicode.lower R.agentActionTopic then findAction logs
        else R.decodeAction indexed log.data

/-- `find_agent_action_in_receipt`. -/
def findAgentAction (receipt : Receipt) : Except Failure (Json F) :=
  R.findAction (receipt.logs.getD [])

/-- `recordAction` was sent with the payload of the advice, and its receipt says that it
succeeded. -/
structure Mined (agentId : ℤ) (body : Advice F) (tx : Str) (receipt : Receipt) : Prop where
  sent : ∃ payload data, R.payload body = .ok payload ∧
    R.encodeRecordAction agentId kindAdvicePublished payload = some data ∧
    R.castSend R.registryAddr data = .ok tx
  received : R.waitForReceipt tx = .ok receipt
  status : R.int16 (receipt.status.getD (lit "0x0")) = .ok 1

/-! ## The route -/

variable (s : MemoryService F E)

/-- What `memory.add` says to an advice that it refuses. -/
def addFailure (vec : List E) (kind : Str) : Failure :=
  if kind ∉ validKinds then .kind kind else .dimension vec.length s.dim

/-- `publish_advice` up to `memory.add`: the trace id, and the memory after it. -/
def remember (now : Double F) (agentId : ℤ) (body : Advice F) :
    Except Failure (Str × MemoryService F E) := do
  let vec ← orFail
    (match body.vec with
      | some vec => .vector s.dim vec.length
      | none => .raised (.embed body.trace))
    (body.vector R.numerics R.packages s.dim)
  let traceId ← orFail (.raised (.encode body.trace)) (body.id R.packages)
  let memory ← orFail (addFailure s vec body.kind)
    (s.add R.numerics now traceId vec body.kind false (some (advicePayload agentId body.trace)))
  return (traceId, memory)

/-- `publish_advice` after `memory.add`: the hash of the transaction, and the event. -/
def record (agentId : ℤ) (body : Advice F) : Except Failure (Str × Json F) := do
  let payload ← R.payload body
  let data ← orFail (.raised (.abiEncode agentId))
    (R.encodeRecordAction agentId kindAdvicePublished payload)
  let tx ← R.castSend R.registryAddr data
  let receipt ← R.waitForReceipt tx
  let status ← R.int16 (receipt.status.getD (lit "0x0"))
  if status ≠ 1 then .error (.reverted tx)
  let event ← R.findAgentAction receipt
  return (tx, event)

/-- What `publish_advice` returns. -/
def publishedContent (tx traceId : Str) (entries : ℕ) (event : Json F) : Json F :=
  .obj [(lit "tx_hash", .str tx), (lit "trace_id", .str traceId),
    (lit "memory_entries", .int entries), (lit "event", event)]

/-- `publish_advice`: the memory that it leaves, and what it returns or raises. -/
def publish (now : Double F) (agentId : ℤ) (body : Advice F) :
    MemoryService F E × Except Failure (Json F) :=
  match R.remember s now agentId body with
  | .error f => (s, .error f)
  | .ok (traceId, memory) => (memory, (R.record agentId body).map fun (tx, event) =>
      publishedContent tx traceId memory.entries.items.length event)

section Answer

variable [Json.FloatText F]

/-- The answer to an exception. -/
def badRequest (text : Str) : Reply := jsonResponse 400 (errorContent (F := F) text) none

/-- `advice_route`. -/
def adviceRoute (now : Double F) (agentId : ℤ) (json : Json F) : MemoryService F E × Reply :=
  match R.advice json with
  | .error body => (s, ⟨422, none, body⟩)
  | .ok body =>
    let (memory, result) := R.publish s now agentId body
    (memory,
      match result with
      | .error f => badRequest (F := F) (R.failureText f)
      | .ok content =>
        match rendered content with
        | some bytes => ⟨200, none, bytes⟩
        | none => badRequest (F := F) R.surrogates)

end Answer

end RegistryService
end Registry
end Arcane
