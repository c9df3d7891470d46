import Arcane.BondVault.Defs

/-!
# The PerformanceOracle contract

`contracts/src/PerformanceOracle.sol` over the BondVault it drives: its storage (`State`, with the
storage of the vault) and its external functions, each under the source's name, as a function to
`Tx Error`. Its bond token is the vault's, as its constructor demands of the deployer. Events are
left out, and so is the `nonReentrant` lock: the bond token and Pyth do not call back, and a refund
is the last thing a call does.

* Pyth is another contract, which only answers: `Env` is what the contracts outside the model do
  during one call. The prices that Pyth answers are the ones after the update of that call.
* `resolve` is cut where the source branches: `verdict` is `_returnBps` and `_shouldSlash`, and
  `settle` what follows the verdict, with the counter-bond posted by `topUp`.
* `Call`, `exec`, `Legal`, `Step`, `Run`, `play`: the functions of both contracts as one machine,
  called by accounts other than the two contracts and the burn address.
-/

namespace Arcane
namespace PerformanceOracle

open Evm

/-- A Pyth feed id. -/
abbrev FeedId := BitVec 256

/-- `PythStructs.Price`. -/
structure Price where
  price : Int64
  conf : UInt64
  expo : Int32
  deriving DecidableEq

structure Advice where
  feedId : FeedId
  direction : Int8
  p0 : Int64
  expo : Int32
  conf0 : UInt64
  recordedAt : UInt64
  horizonSecs : UInt64
  slashThresholdBps : UInt32
  slashAmount : ℕ
  exists_ : Bool
  resolved : Bool
  slashed : Bool
  deriving DecidableEq

/-- A storage slot that was never written. -/
def Advice.empty : Advice := ⟨0, 0, 0, 0, 0, 0, 0, 0, 0, false, false, false⟩

inductive Error where
  | notRecorder
  | invalidDirection
  | zeroHorizon
  | zeroSlashAmount
  | adviceAlreadyExists
  | noAdvice
  | alreadyResolved
  | horizonNotElapsed (readyAt : ℕ)
  | priceFeedMismatch
  | feeUnderpaid (required provided : ℕ)
  | insufficientCounterBond
  | refundFailed
  deriving DecidableEq

/-- The contract's address and its immutables. -/
structure Config where
  self : Address
  pyth : Address
  vault : BondVault.Config
  recorder : Address
  self_ne : self ≠ 0

/-- What Pyth answers during a call; `none` is a revert. -/
structure Pyth where
  getUpdateFee : List ByteArray → Option ℕ
  /-- The update with its fee, and what `getPriceNoOlderThan` with the valid time period answers
  after it. -/
  updatePriceFeeds : List ByteArray → ℕ → Option (FeedId → Option Price)

/-- What the contracts outside the model do during a call. -/
structure Env where
  pyth : Pyth
  checker : BondVault.Checker
  /-- The caller accepts a refund. -/
  refundAccepted : Bool

structure State where
  vault : BondVault.State
  advice : Address → Advice

/-- `constructor`. -/
def deploy (O : Config) (vault : BondVault.State) : Tx Error State := do
  require (O.pyth ≠ 0) "pyth=0"
  require (O.vault.self ≠ 0) "vault=0"
  require (O.vault.bondToken ≠ 0) "token=0"
  require (O.recorder ≠ 0) "recorder=0"
  return { vault, advice := fun _ => Advice.empty }

/-! ## The Pyth fee -/

/-- The fee is paid and the update pushed. Returns the fee and the prices. -/
def pushUpdate (pyth : Pyth) (m : Msg) (priceUpdate : List ByteArray) :
    Tx Error (ℕ × (FeedId → Option Price)) := do
  let fee ← reply (pyth.getUpdateFee priceUpdate)
  revertIf (m.value < fee) (.feeUnderpaid fee m.value)
  let prices ← reply (pyth.updatePriceFeeds priceUpdate fee)
  return (fee, prices)

/-- Refunds any overpayment of the fee. -/
def refundExcess (env : Env) (m : Msg) (fee : ℕ) : Tx Error Unit := do
  let refund ← U256.sub m.value fee
  revertIf (0 < refund ∧ env.refundAccepted = false) .refundFailed

/-! ## Record -/

def recordAdvice (O : Config) (s : State) (m : Msg) (env : Env) (agent : Address)
    (feedId : FeedId) (direction : Int8) (horizonSecs : UInt64) (slashThresholdBps : UInt32)
    (slashAmount : ℕ) (priceUpdate : List ByteArray) : Tx Error State := do
  revertIf (m.sender ≠ O.recorder) .notRecorder
  revertIf (direction ≠ 1 ∧ direction ≠ -1) .invalidDirection
  revertIf (horizonSecs = 0) .zeroHorizon
  revertIf (slashAmount = 0) .zeroSlashAmount
  revertIf ((s.advice agent).exists_ = true ∧ (s.advice agent).resolved = false)
    .adviceAlreadyExists
  let (fee, prices) ← pushUpdate env.pyth m priceUpdate
  let p ← reply (prices feedId)
  let a : Advice := {
    feedId
    direction
    p0 := p.price
    expo := p.expo
    conf0 := p.conf
    recordedAt := UInt64.ofNat m.timestamp
    horizonSecs
    slashThresholdBps
    slashAmount
    exists_ := true
    resolved := false
    slashed := false }
  refundExcess env m fee
  return { s with advice := Function.update s.advice agent a }

/-! ## Verdict math -/

/-- `p0 >= 0 ? int256(p0) : -int256(p0)`. -/
def absPrice (p0 : Int64) : Tx Error ℤ :=
  if 0 ≤ p0 then return p0.toInt else I256.neg p0.toInt

/-- The denominator of both returns, which must not be zero. -/
def denominator (p0 : Int64) : Tx Error ℤ := do
  let denom ← absPrice p0
  require (denom ≠ 0) "p0=0"
  return denom

/-- `_returnBps`. -/
def returnBps (p0 p1 : Int64) (direction : Int8) : Tx Error ℤ := do
  let denom ← denominator p0
  let delta ← I256.sub p1.toInt p0.toInt
  let directed ← I256.mul direction.toInt delta
  let scaled ← I256.mul directed 10000
  I256.div scaled denom

/-- `_shouldSlash`. -/
def shouldSlash (rBps : ℤ) (slashThresholdBps : UInt32) (conf1 : UInt64) (p0 : Int64) :
    Tx Error Bool :=
  if 0 ≤ rBps then return false
  else do
    let denom ← denominator p0
    let scaled ← I256.mul conf1.toNat 10000
    let confBps ← I256.div scaled denom
    let band ← I256.add slashThresholdBps.toNat confBps
    let trigger ← I256.neg band
    return decide (rBps < trigger)

/-- The verdict on the advice at the price `p1`: slash, or not. -/
def verdict (a : Advice) (p1 : Price) : Tx Error Bool := do
  let rBps ← returnBps a.p0 p1.price a.direction
  shouldSlash rBps a.slashThresholdBps p1.conf a.p0

/-! ## Resolve -/

/-- `if (counterBondOf(this) < slashAmount) {…}`: the oracle posts what its counter-bond lacks. -/
def topUp (O : Config) (vault : BondVault.State) (m : Msg) (slashAmount : ℕ) :
    Tx Error BondVault.State :=
  if vault.counterBondOf O.self < slashAmount then do
    let need ← U256.sub slashAmount (vault.counterBondOf O.self)
    revertIf (vault.bondToken.balanceOf O.self < need) .insufficientCounterBond
    let bondToken ← vault.bondToken.forceApprove O.self O.vault.self need
    external (BondVault.postCounterBond O.vault { vault with bondToken }
      (m.inner O.self O.self_ne) need)
  else return vault

/-- `if (slashed) {…} else {…}`: the double-burn, or the approval of the agent's release. -/
def settle (O : Config) (vault : BondVault.State) (m : Msg) (agent : Address)
    (slashAmount : ℕ) (slashed : Bool) : Tx Error BondVault.State :=
  if slashed then do
    let vault ← topUp O vault m slashAmount
    external (BondVault.slash O.vault vault (m.inner O.self O.self_ne) agent slashAmount)
  else external (BondVault.approveRelease vault (m.inner O.self O.self_ne) agent)

def resolve (O : Config) (s : State) (m : Msg) (env : Env) (agent : Address)
    (priceUpdate : List ByteArray) : Tx Error State := do
  let a := s.advice agent
  revertIf (a.exists_ = false) .noAdvice
  revertIf (a.resolved = true) .alreadyResolved
  let readyAt ← U256.add a.recordedAt.toNat a.horizonSecs.toNat
  revertIf (m.timestamp < readyAt) (.horizonNotElapsed readyAt)
  let (fee, prices) ← pushUpdate env.pyth m priceUpdate
  let p1 ← reply (prices a.feedId)
  revertIf (p1.expo ≠ a.expo) .priceFeedMismatch
  let slashed ← verdict a p1
  let vault ← settle O s.vault m agent a.slashAmount slashed
  refundExcess env m fee
  let resolved := { a with resolved := true, slashed := a.slashed || slashed }
  return { vault, advice := Function.update s.advice agent resolved }

/-! ## The two contracts as one state machine -/

/-- An external call: on the vault, on its token, or on the oracle. -/
inductive Call where
  | vault (c : BondVault.Call)
  | recordAdvice (agent : Address) (feedId : FeedId) (direction : Int8) (horizonSecs : UInt64)
      (slashThresholdBps : UInt32) (slashAmount : ℕ) (priceUpdate : List ByteArray)
  | resolve (agent : Address) (priceUpdate : List ByteArray)

/-- A call with its context and what the outside contracts do during it. -/
structure Event where
  msg : Msg
  env : Env
  call : Call

/-- A call from outside. -/
def exec (O : Config) (s : State) (e : Event) : Tx Error State :=
  match e.call with
  | .vault c => do
    let vault ← external (BondVault.exec O.vault s.vault ⟨e.msg, e.env.checker, c⟩)
    return { s with vault }
  | .recordAdvice agent feedId direction horizonSecs slashThresholdBps slashAmount priceUpdate =>
    recordAdvice O s e.msg e.env agent feedId direction horizonSecs slashThresholdBps slashAmount
      priceUpdate
  | .resolve agent priceUpdate => resolve O s e.msg e.env agent priceUpdate

/-- Nobody acts for the two contracts, and nobody has the key of the burn address. -/
def Legal (O : Config) (m : Msg) : Prop := BondVault.Legal O.vault m ∧ m.sender ≠ O.self

instance (O : Config) (m : Msg) : Decidable (Legal O m) := inferInstanceAs (Decidable (_ ∧ _))

/-- An accepted call. -/
abbrev Step (O : Config) : State → Event → State → Prop :=
  Accepts (fun e => Legal O e.msg) (exec O)

/-- Both contracts right after their deployment. -/
structure Deployed (O : Config) (s : State) : Prop where
  vault : BondVault.Deployed O.vault s.vault
  deploy : deploy O s.vault = .ok s
  self_ne_vault : O.self ≠ O.vault.self
  self_ne_burn : O.self ≠ BondVault.burnAddress

/-- The run that a list of calls makes, when all are accepted. -/
def play (O : Config) (s : State) (calls : List Event) :
    Option (List (Trace.Step State Event) × State) :=
  Evm.play (fun e => Legal O e.msg) (exec O) s calls

/-- The runs of the two contracts. -/
abbrev Run (O : Config) (s₀ : State) (tr : List (Trace.Step State Event)) (s : State) : Prop :=
  Trace.Run (Step O) s₀ tr s

end PerformanceOracle
end Arcane
