import Arcane.X402.Gateway
import Arcane.X402.Signer

/-!
# The batch client

`scripts/x402/batch_client.ts`: `X402BatchClient` as a state machine. Its methods are `async`: what
runs between two `await`s is one step, and a suspended call is a record of where it waits
(`PayCall`, `flushInFlight`, `closePromise`). Any suspended call may go on next.

* `pay` goes through the two round trips and the signature (`Stage`) and hands the authorization
  over to the queue policy (`accept`).
* `flush` takes the queue away at once (`doFlush`) and clears `flushInFlight` when the settlement
  is known (`flushed`). A second `flush` waits for the first.
* `close` stops the age timer and returns the promise of a `flush`.

The transport's answers, the signatures, the clock and the outcome of a settlement come with the
events.
-/

namespace Arcane
namespace X402

open Text

/-- `QueueEntry`. -/
structure QueueEntry where
  auth : PaymentAuthorization
  url : Str
  enqueuedAt : ℤ

/-- `PayOptions`, less what is only handed to the transport. -/
structure PayOptions where
  maxAmountUsdc : Str
  batchMode : Option BatchMode
  validForSeconds : Option ℤ

/-- The `await` at which a `pay()` waits, with what it goes on with. -/
inductive Stage
  | firstResponse
  | challenge
  | signature (args : SignArgs) (domain : ResolvedDomain) (message : TransferWithAuthorization)
  | secondResponse (auth : PaymentAuthorization)
  | secondBody (auth : PaymentAuthorization)
  /-- `immediate` mode: the settlement of the one authorization. -/
  | settlement (auth : PaymentAuthorization)
  /-- The promise is settled. -/
  | done (result : Except X402Error PaymentAuthorization)

structure PayCall where
  url : Str
  options : PayOptions
  maxUnits : ℤ
  stage : Stage

/-- The batch of a flush that waits for its settlement. -/
structure Batch where
  items : List PaymentAuthorization
  reason : Reason

/-- The promise of the `close()` that found the client open. -/
inductive ClosePromise
  | notCalled
  /-- It waits for the flush in flight. -/
  | flushing
  /-- The flush it waited for is over. -/
  | flushed
  | settled
deriving DecidableEq

structure Config where
  address : Str
  chainId : ℤ
  network : Str
  usdcAddress : Str
  batchMode : BatchMode
  maxBatchSize : ℤ
  maxBatchAgeSeconds : ℤ

structure X402BatchClient where
  queue : List QueueEntry
  ageTimer : Bool
  closed : Bool
  flushInFlight : Option Batch
  /-- The calls of `pay` made so far. -/
  calls : ℕ → Option PayCall
  closePromise : ClosePromise
  /-- The promise of some `close()` has resolved. -/
  closeResolved : Bool

/-- What `.json()` makes of a response's body. -/
inductive Body
  | notJson
  | noAccepts
  | accepts (entries : List PaymentRequirements)

inductive Event
  | pay (id : ℕ) (url : Str) (options : PayOptions)
  | response (id status : ℕ)
  | json (id : ℕ) (body : Body) (now : ℤ) (nonce : Str)
  | signature (id : ℕ) (signature : Option Str)
  /-- What the call waits for is rejected. -/
  | fails (id : ℕ)
  | settled (id : ℕ) (result : Except X402Error BatchedSettlement)
  | flush
  | ageTick (now : ℤ)
  /-- The settlement of the flush in flight is known. -/
  | flushed (result : Except X402Error BatchedSettlement)
  | close
  | closeReturns

namespace X402BatchClient

/-- `new X402BatchClient(config)`. -/
def new (cfg : Config) : X402BatchClient where
  queue := []
  ageTimer := cfg.batchMode = .auto
  closed := false
  flushInFlight := none
  calls := fun _ => none
  closePromise := .notCalled
  closeResolved := false

def pendingCount (s : X402BatchClient) : ℕ := s.queue.length

section Queue

/-- `doFlush` up to the settlement: the queue becomes the batch. -/
def doFlush (s : X402BatchClient) (reason : Reason) : X402BatchClient :=
  { s with queue := [], flushInFlight := some ⟨s.queue.map (·.auth), reason⟩ }

/-- `flush`: a flush in flight is shared. -/
def flush (s : X402BatchClient) (reason : Reason) : X402BatchClient :=
  if s.flushInFlight.isSome then s else s.doFlush reason

def enqueue (s : X402BatchClient) (auth : PaymentAuthorization) (url : Str) (now : ℤ) :
    X402BatchClient :=
  { s with queue := s.queue ++ [⟨auth, url, now⟩] }

/-- The synchronous size check. -/
def flushBySize (cfg : Config) (s : X402BatchClient) : X402BatchClient :=
  if (s.queue.length : ℤ) ≥ cfg.maxBatchSize then s.flush .size else s

/-- `maybeFlushByAge`, which the timer calls. -/
def maybeFlushByAge (cfg : Config) (s : X402BatchClient) (now : ℤ) : X402BatchClient :=
  match s.queue with
  | [] => s
  | oldest :: _ => if now - oldest.enqueuedAt ≥ cfg.maxBatchAgeSeconds then s.flush .age else s

end Queue

section Pay

def setStage (s : X402BatchClient) (id : ℕ) (call : PayCall) (stage : Stage) : X402BatchClient :=
  { s with calls := Function.update s.calls id (some { call with stage }) }

def reject (s : X402BatchClient) (id : ℕ) (call : PayCall) (e : X402Error) : X402BatchClient :=
  s.setStage id call (.done (.error e))

/-- The mode of one call. -/
def effectiveMode (cfg : Config) (call : PayCall) : BatchMode :=
  call.options.batchMode.getD cfg.batchMode

/-- The queue policy, for an authorization that the server accepted. -/
def accept (cfg : Config) (s : X402BatchClient) (id : ℕ) (call : PayCall)
    (auth : PaymentAuthorization) (now : ℤ) : X402BatchClient :=
  match effectiveMode cfg call with
  | .immediate => s.setStage id call (.settlement auth)
  | .manual => (s.enqueue auth call.url now).setStage id call (.done (.ok auth))
  | .auto => ((s.enqueue auth call.url now).flushBySize cfg).setStage id call (.done (.ok auth))

/-- The call after the 402 body: the entry to pay for, and the message to sign. -/
def challenge (U : Unicode) (cfg : Config) (call : PayCall) (body : Body) (now : ℤ) (nonce : Str) :
    Except X402Error Stage :=
  match body with
  | .notJson => .error (.error "INVALID_402_BODY" "402 body was not JSON")
  | .noAccepts => .error (.error "INVALID_402_BODY" "402 body missing accepts[]")
  | .accepts entries => do
    let entry ← pickAccept U entries
      { network := cfg.network, asset := some cfg.usdcAddress, maxAmountBaseUnits := call.maxUnits }
    let some value := bigInt entry.maxAmountRequired | .error .uncaught
    let args : SignArgs :=
      { requirements := entry
        chainId := cfg.chainId
        value
        validForSeconds := call.options.validForSeconds.getD (max 15 entry.maxTimeoutSeconds)
        nonce
        now
        expectedRecipient := none
        maxAmountBaseUnits := none }
    let (domain, message) ← transferMessage U cfg.address args
    return .signature args domain message

/-- `pay` up to the first `await`. -/
def startPay (s : X402BatchClient) (id : ℕ) (url : Str) (options : PayOptions) : X402BatchClient :=
  let call : PayCall := ⟨url, options, 0, .firstResponse⟩
  if s.closed then s.reject id call (.error "CLOSED" "client has been closed")
  else match usdcToBaseUnits options.maxAmountUsdc with
    | .error e => s.reject id call e
    | .ok maxUnits => s.setStage id { call with maxUnits } .firstResponse

/-- The status of the response that the call waits for. -/
def onResponse (s : X402BatchClient) (id : ℕ) (call : PayCall) (status : ℕ) :
    Option X402BatchClient :=
  match call.stage with
  | .firstResponse =>
    if status = 200 then
      some (s.reject id call (.error "UNEXPECTED_FREE" "server returned 200 without 402"))
    else if status ≠ 402 then some (s.reject id call (.serverRefused status))
    else some (s.setStage id call .challenge)
  | .secondResponse auth =>
    if status ≠ 200 then some (s.reject id call (.serverRefused status))
    else some (s.setStage id call (.secondBody auth))
  | _ => none

/-- The body of the response that the call waits for. -/
def onJson (U : Unicode) (cfg : Config) (s : X402BatchClient) (id : ℕ) (call : PayCall)
    (body : Body) (now : ℤ) (nonce : Str) : Option X402BatchClient :=
  match call.stage with
  | .challenge =>
    match challenge U cfg call body now nonce with
    | .error e => some (s.reject id call e)
    | .ok stage => some (s.setStage id call stage)
  | .secondBody auth =>
    match body with
    | .notJson => some (s.reject id call .uncaught)
    | _ => some (s.accept cfg id call auth now)
  | _ => none

def onSignature (s : X402BatchClient) (id : ℕ) (call : PayCall) (signature : Option Str) :
    Option X402BatchClient :=
  match call.stage with
  | .signature args domain message =>
    match signature with
    | none => some (s.reject id call (.signerUnusable "EOA has no privateKey"))
    | some signature =>
      some (s.setStage id call
        (.secondResponse (paymentAuthorization args domain message signature)))
  | _ => none

def onFailure (s : X402BatchClient) (id : ℕ) (call : PayCall) : Option X402BatchClient :=
  match call.stage with
  | .firstResponse | .challenge | .secondResponse _ | .secondBody _ =>
    some (s.reject id call .uncaught)
  | _ => none

/-- `immediate` mode: the one authorization is settled, or not. -/
def onSettled (s : X402BatchClient) (id : ℕ) (call : PayCall)
    (result : Except X402Error BatchedSettlement) : Option X402BatchClient :=
  match call.stage with
  | .settlement auth =>
    match result with
    | .ok _ => some (s.setStage id call (.done (.ok auth)))
    | .error e => some (s.reject id call e)
  | _ => none

end Pay

section Close

/-- `flush` from the settlement on. The promise of `close()` shares its outcome. -/
def onFlushed (s : X402BatchClient) (result : Except X402Error BatchedSettlement) :
    Option X402BatchClient :=
  match s.flushInFlight with
  | none => none
  | some _ =>
    let closePromise := match s.closePromise, result with
      | .flushing, .ok _ => .flushed
      | .flushing, .error _ => .settled
      | p, _ => p
    some { s with flushInFlight := none, closePromise }

/-- `close`. On a closed client its promise resolves at once. -/
def close (s : X402BatchClient) : X402BatchClient :=
  if s.closed then { s with closeResolved := true }
  else
    { { s with closed := true, ageTimer := false }.flush .shutdown with closePromise := .flushing }

def onCloseReturns (s : X402BatchClient) : Option X402BatchClient :=
  if s.closePromise = .flushed then some { s with closePromise := .settled, closeResolved := true }
  else none

end Close

variable (U : Unicode) (cfg : Config)

/-- One step, when the event can happen. -/
def step (s : X402BatchClient) : Event → Option X402BatchClient
  | .pay id url options =>
    if (s.calls id).isSome then none else some (s.startPay id url options)
  | .response id status => (s.calls id).bind fun call => s.onResponse id call status
  | .json id body now nonce => (s.calls id).bind fun call => s.onJson U cfg id call body now nonce
  | .signature id signature => (s.calls id).bind fun call => s.onSignature id call signature
  | .fails id => (s.calls id).bind fun call => s.onFailure id call
  | .settled id result => (s.calls id).bind fun call => s.onSettled id call result
  | .flush => some (s.flush .manual)
  | .ageTick now => if s.ageTimer then some (s.maybeFlushByAge cfg now) else none
  | .flushed result => s.onFlushed result
  | .close => some s.close
  | .closeReturns => s.onCloseReturns

/-- A settler may resolve with a settlement of the batch, or reject. -/
def Settles (settle : Batch → Except X402Error BatchedSettlement → Prop) (s : X402BatchClient) :
    Event → Prop
  | .flushed result => ∀ batch, s.flushInFlight = some batch → settle batch result
  | _ => True

/-- A step of the client with a settler. -/
def Step (settle : Batch → Except X402Error BatchedSettlement → Prop) (s : X402BatchClient)
    (e : Event) (s' : X402BatchClient) : Prop :=
  s.Settles settle e ∧ step U cfg s e = some s'

end X402BatchClient

/-- Any settler that, when it resolves, reports the batch it was given. -/
def anySettler (batch : Batch) (result : Except X402Error BatchedSettlement) : Prop :=
  ∀ b, result = .ok b → b.items = batch.items

/-- The settler that the client has. -/
def CircleGatewaySettler.settles (c : CircleGatewaySettler) (batch : Batch)
    (result : Except X402Error BatchedSettlement) : Prop :=
  ∃ flushedAt, result = c.settle batch.items batch.reason flushedAt

theorem CircleGatewaySettler.anySettler {c : CircleGatewaySettler} {batch : Batch}
    {result : Except X402Error BatchedSettlement} (h : c.settles batch result) :
    anySettler batch result := by
  obtain ⟨flushedAt, rfl⟩ := h
  intro b hb
  exact (settle_items hb).1

end X402
end Arcane
