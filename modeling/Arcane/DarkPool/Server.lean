import Arcane.DarkPool.Payment
import Arcane.DarkPool.RateLimiter
import Arcane.Memory.Archive
import Arcane.Registry.Advice

/-!
# The dark pool server

The handlers of `POST /query` and `POST /add`, cut at their `await`s: a request is `reading` its
body, then `consuming` a token of its signer, and perhaps `waiting` for `retry_after`. Between two
`await`s a handler runs alone. Beside them run the purge of the nonce store and the registry's
`publish_advice`, which share one event loop.
-/

namespace Arcane
namespace DarkPool

open Text Memory Registry

/-- `QueryBody`. -/
structure QueryBody (F : Type) where
  queryVec : List (Double F)
  k : ℤ
  one_le_k : 1 ≤ k
  k_le : k ≤ 100

/-- `AddBody`. -/
structure AddBody (F : Type) where
  traceId : Str
  traceId_ne_nil : traceId ≠ []
  length_traceId : traceId.length ≤ 256
  vec : List (Double F)
  payload : Payload F
  keyed_payload : Json.Keyed (.obj payload)
  kind : Str

/-- The server's configuration, and what it runs on. -/
structure App (F E : Type) where
  numerics : Numerics F E
  interpreter : Interpreter F
  config : Config
  /-- `QueryBody(**body_json)`, or the text of the exception. -/
  queryBody : Json F → Except Str (QueryBody F)
  addBody : Json F → Except Str (AddBody F)
  repr : Str → Str
  /-- The text of the `ValueError` of `memory.add`. -/
  addError : Str
  /-- `x % 1` is not zero. -/
  fractional : F → Bool
  packages : Packages F E

inductive Route
  | query
  | add
deriving DecidableEq

structure Request (F : Type) where
  route : Route
  /-- `request.url.path`. -/
  resource : Str
  /-- What `await request.json()` gives, unless it raises. -/
  body : Option (Json F)
  /-- `X-PAYMENT`. -/
  header : Option Str

/-- What is done for a buyer. -/
inductive Call (F E : Type)
  | query (vec : List E) (k : ℤ)
  | add (traceId : Str) (vec : List E) (kind : Str) (payload : Payload F)

/-- A request that `_validate_payment` has accepted. -/
structure Paid (F E : Type) where
  resource : Str
  valid : Valid F
  call : Call F E

structure Reply where
  status : ℕ
  /-- `Retry-After`. -/
  retryAfter : Option Str
  body : Bytes
deriving DecidableEq

/-- Where the handler of a request stands; the times are those at which it called the limiter. -/
inductive Stage (F E : Type)
  | reading (request : Request F)
  | consuming (paid : Paid F E) (now : Double F)
  | waiting (paid : Paid F E) (now : Double F)
  | answered (reply : Reply)

/-- The state of the two services. -/
structure State (F E : Type) where
  /-- The last `int(time.time())`. -/
  clock : ℤ
  store : NonceStore
  limiter : RateLimiter F
  memory : MemoryService F E
  /-- In the order in which they came. -/
  requests : List (Stage F E)

section Replies

variable {F : Type} [Json.FloatText F]

/-- `ensure_ascii=False, allow_nan=False, separators=(",", ":")`. -/
def responseStyle : Json.Style where
  escapes _ := false
  spaced := false
  sortKeys := false

/-- `JSONResponse.render`, which raises on numbers that are not finite and on surrogates. -/
def rendered (content : Json F) : Option Bytes :=
  if Json.Finite content then utf8 (Json.render responseStyle content) else none

/-- The answer to an exception. -/
def internalError : Reply := ⟨500, none, (utf8 (lit "Internal Server Error")).getD []⟩

def jsonResponse (status : ℕ) (content : Json F) (retryAfter : Option Str) : Reply :=
  match rendered content with
  | some body => ⟨status, retryAfter, body⟩
  | none => internalError

/-- `{"error": text}`. -/
def errorContent (text : Str) : Json F := .obj [(lit "error", .str text)]

end Replies

namespace App

variable {F E : Type} [Json.FloatText F] (A : App F E)

section Handlers

variable (s : State F E)

/-- `vec.shape` of a vector. -/
def shapeText (n : ℕ) : Str := lit "(" ++ natText n ++ lit ",)"

def wrongLength (name : Str) (vec : List (Double F)) : Str :=
  name ++ lit " must be length " ++ natText s.memory.dim ++ lit ", got " ++ shapeText vec.length

def workingKinds : List Str := [lit "working", lit "episodic", lit "semantic"]

/-- The first steps of `_handle_query`, or the text of its 400. -/
def queryCall (body : Json F) : Except Str (Call F E) :=
  match A.queryBody body with
  | .error e => .error (lit "invalid body: " ++ e)
  | .ok body =>
    if body.queryVec.length ≠ s.memory.dim then
      .error (wrongLength s (lit "query_vec") body.queryVec)
    else .ok (.query (body.queryVec.map A.numerics.single) body.k)

/-- The first steps of `_handle_add`. -/
def addCall (body : Json F) : Except Str (Call F E) :=
  match A.addBody body with
  | .error e => .error (lit "invalid body: " ++ e)
  | .ok body =>
    if body.vec.length ≠ s.memory.dim then .error (wrongLength s (lit "vec") body.vec)
    else if body.kind ∉ workingKinds then
      .error (lit "kind must be one of working/episodic/semantic, got " ++ A.repr body.kind)
    else .ok (.add body.traceId (body.vec.map A.numerics.single) body.kind body.payload)

def requestCall (r : Request F) : Except Str (Call F E) :=
  match r.body with
  | none => .error (lit "request body must be JSON")
  | some body =>
    match r.route with
    | .query => A.queryCall s body
    | .add => A.addCall s body

def paymentRequired (resource : Str) (error : Option Str) : Reply :=
  jsonResponse 402 (make402 (F := F) A.config resource error) none

/-- The answer to a payment that failed. -/
def failed (resource : Str) : Failure F → Reply
  | .refused why => A.paymentRequired resource (some (why.text A.interpreter A.config))
  | .raised => internalError

/-- The payment that a header was parsed to, at the time `now`. -/
def checkPayment (now : ℤ) (parsed : Except (Refusal F) (List (Str × Json F))) :
    Except (Failure F) (Valid F) := do
  validatePayment A.interpreter A.config now s.store (← parsed.mapError .refused)

/-- The payment of a request, or the answer without one. -/
def payment (now : ℤ) (r : Request F) : Except Reply (Valid F) :=
  -- `if not payment_header`.
  match r.header.filter (!·.isEmpty) with
  | none => .error (A.paymentRequired r.resource none)
  | some raw => (A.checkPayment s now (parsePaymentHeader raw)).mapError (A.failed r.resource)

/-- From the body of a request to the call of `try_consume`. -/
def admission (now : ℤ) (r : Request F) : Except Reply (Paid F E) :=
  match A.requestCall s r with
  | .error text => .error (jsonResponse 400 (errorContent (F := F) text) none)
  | .ok call => (A.payment s now r).map fun valid => ⟨r.resource, valid, call⟩

/-- `{"trace_id": tid, "score": float(score), "payload": payload}`. -/
def resultContent (memory : MemoryService F E) (r : Str × Double F) : Json F :=
  .obj [(lit "trace_id", .str r.1), (lit "score", .float r.2),
    (lit "payload", .obj ((memory.entries.get? r.1).elim [] (·.payload)))]

/-- The answer of `/query` with the state of the memory. -/
def answerQuery (vec : List E) (k : ℤ) : MemoryService F E × Reply :=
  let (memory, results) := s.memory.query A.numerics vec k
  (memory, match results with
    | none => internalError
    | some results =>
      jsonResponse 200 (.obj [(lit "results", .arr (results.map (resultContent memory)))]) none)

def addedContent (memory : MemoryService F E) (traceId signer : Str) : Json F :=
  .obj [(lit "ok", .bool true), (lit "trace_id", .str traceId),
    (lit "memory_entries", .int memory.entries.items.length), (lit "signer", .str signer)]

/-- The answer of `/add` with the state of the memory. -/
def answerAdd (now : Double F) (signer traceId : Str) (vec : List E) (kind : Str)
    (payload : Payload F) : MemoryService F E × Reply :=
  match s.memory.add A.numerics now traceId vec kind false (some payload) with
  | none =>
    (s.memory, jsonResponse 400
      (errorContent (F := F) (lit "memory.add rejected entry: " ++ A.addError)) none)
  | some memory => (memory, jsonResponse 200 (addedContent memory traceId signer) none)

def answer (now : Double F) (p : Paid F E) : MemoryService F E × Reply :=
  match p.call with
  | .query vec k => A.answerQuery s vec k
  | .add traceId vec kind payload => A.answerAdd s now p.valid.signer traceId vec kind payload

/-- The trace id of an `/add` is taken. -/
def Call.taken (c : Call F E) : Option Str :=
  match c with
  | .add traceId _ _ _ => if (s.memory.entries.get? traceId).isSome then some traceId else none
  | .query _ _ => none

/-- From the token of the signer to the answer. -/
def serve (now : Double F) (p : Paid F E) : State F E × Reply :=
  match Call.taken s p.call with
  | some traceId =>
    (s, jsonResponse 409
      (errorContent (F := F) (lit "trace_id already exists: " ++ A.repr traceId)) none)
  | none =>
    match commitNonce A.interpreter A.config s.store p.valid with
    | .error e => (s, A.failed p.resource e)
    | .ok store =>
      let (memory, reply) := A.answer s now p
      ({ s with store, memory }, reply)

/-- `str(ra_int)`; `int` raises `OverflowError` on an infinite number. -/
def retryAfterText : Double F → Option Str
  | .finite x =>
    some (intText (max 1 (A.interpreter.truncate x + if A.fractional x then 1 else 0)))
  | _ => none

/-- The 429. -/
def limited (p : Paid F E) (now : Double F) : Reply :=
  let retryAfter := s.limiter.retryAfter A.numerics p.valid.signer 1 now
  match A.retryAfterText retryAfter with
  | none => internalError
  | some text =>
    jsonResponse 429
      (.obj [(lit "error", .str (lit "rate limit exceeded")), (lit "signer", .str p.valid.signer),
        (lit "retry_after_seconds", .float retryAfter)]) (some text)

end Handlers

/-- What can happen: `i` is the number of a request. -/
inductive Event (F : Type)
  | arrive (request : Request F)
  /-- Its body was read, with the readings of the two clocks after it. -/
  | read (i : ℕ) (now : ℤ) (monotonic : Double F)
  /-- It gets the limiter's lock; `now` is that of `memory.add`, and `monotonic` that of
  `retry_after`. -/
  | consume (i : ℕ) (now monotonic : Double F)
  | retry (i : ℕ)
  | purge (now : ℤ)
  /-- `POST /agents/{id}/advice`. -/
  | advice (agentId : ℤ) (body : Json F) (now : Double F)

section Steps

variable (s : State F E)

def setStage (i : ℕ) (stage : Stage F E) : State F E :=
  { s with requests := s.requests.set i stage }

def read (i : ℕ) (now : ℤ) (monotonic : Double F) (r : Request F) : State F E :=
  let s := { s with clock := now }
  match A.admission s now r with
  | .error reply => setStage s i (.answered reply)
  | .ok paid => setStage s i (.consuming paid monotonic)

def consume (i : ℕ) (now monotonic : Double F) (p : Paid F E) (asked : Double F) : State F E :=
  let (limiter, granted) := s.limiter.consume A.numerics p.valid.signer 1 asked
  let s := { s with limiter }
  if granted then
    let (s, reply) := A.serve s now p
    setStage s i (.answered reply)
  else setStage s i (.waiting p monotonic)

/-- The memory after an advice, accepted or not. -/
def advised (agentId : ℤ) (body : Json F) (now : Double F) : MemoryService F E :=
  ((A.packages.adviceBody body).bind
    (publishAdvice A.numerics A.packages s.memory now agentId)).getD s.memory

/-- What an event does, unless it cannot happen; the clock does not go back. -/
def step : Event F → Option (State F E)
  | .arrive r => some { s with requests := s.requests ++ [.reading r] }
  | .read i now monotonic =>
    match s.requests[i]? with
    | some (.reading r) => if now < s.clock then none else some (A.read s i now monotonic r)
    | _ => none
  | .consume i now monotonic =>
    match s.requests[i]? with
    | some (.consuming p asked) => some (A.consume s i now monotonic p asked)
    | _ => none
  | .retry i =>
    match s.requests[i]? with
    | some (.waiting p asked) => some (setStage s i (.answered (A.limited s p asked)))
    | _ => none
  | .purge now =>
    if now < s.clock then none
    else some { s with clock := now, store := s.store.purgeExpired now }
  | .advice agentId body now => some { s with memory := A.advised s agentId body now }

end Steps

def Step (s : State F E) (e : Event F) (s' : State F E) : Prop := A.step s e = some s'

end App
end DarkPool
end Arcane
