import Arcane.Lib.Run
import Arcane.Lib.Token

/-!
# The Colosseum contract

`contracts/src/Colosseum.sol`: its storage (`State`) and its external functions, each under the
source's name, as a function to `Tx Error`. USDC is a standard token (`Evm.Token`), which never
calls back, so the `nonReentrant` lock is always free and is left out; so are the events.

* The long functions are cut where the source branches: `reportCall` into `recordScore`,
  `recordIngestion`, `recordFailure` and `settleBounty`; `resolve` into `closeOutStake`,
  `payAlpha` and `payShield`; `claim` into `claimPayout` and `winnerPayout`.
* `Call` and `exec`: the external functions as one step function, with the calls other accounts
  make on USDC.
* `Legal`, `Step`, `Run`: the calls of accounts other than the contract that send it no USDC, and
  the runs they make. `play`: the run of a list of calls, computed.
-/

namespace Arcane
namespace Colosseum

open Evm

inductive Status where
  | none
  | live
  | resolved
  deriving DecidableEq

structure Duel where
  agentA : Address
  agentB : Address
  startAt : ℕ
  tradingStartsAt : ℕ
  endsAt : ℕ
  status : Status
  winner : Address
  shieldWinner : Address
  scoreA : ℤ
  scoreB : ℤ
  poolA : ℕ
  poolB : ℕ
  deriving DecidableEq

/-- A storage slot that was never written. -/
def Duel.empty : Duel := ⟨0, 0, 0, 0, 0, .none, 0, 0, 0, 0, 0, 0⟩

structure AgentInfo where
  developer : Address
  stake : ℕ
  failures : ℕ
  registered : Bool
  deriving DecidableEq

def AgentInfo.empty : AgentInfo := ⟨0, 0, 0, false⟩

/-- `ITEM_COUNT`. -/
def itemCount : ℕ := 3

inductive Error where
  | notRecorder
  | duelNotLive
  | duelNotOver
  | duelAlreadyResolved
  | duelDoesNotExist
  | sameAgent
  | zeroAgent
  | zeroAmount
  | unknownAgent
  | badItem
  | itemDisabled
  | nothingToClaim
  | alreadyClaimed
  | bettingClosed
  | tradingNotStarted
  | alreadyRegistered
  | notRegistered
  | injectionAgentMismatch
  | badParam
  deriving DecidableEq

/-- The contract's address and its immutables. -/
structure Config where
  self : Address
  usdc : Address
  recorder : Address

/-- The storage, with the state of USDC. -/
structure State where
  usdc : Token
  treasury : Address
  duelCount : ℕ
  duels : ℕ → Duel
  betOf : ℕ → Bool → Address → ℕ
  claimed : ℕ → Address → Bool
  winClaimedStake : ℕ → ℕ
  paidOut : ℕ → ℕ
  itemPrice : ℕ → ℕ
  injectionsIngested : Address → ℕ
  survivedInjections : Address → ℕ
  injectionsAgainst : ℕ → Address → ℕ
  agents : Address → AgentInfo
  injectionEscrows : ℕ → ℕ
  injectionTarget : ℕ → Address
  injectionCount : ℕ
  prizePool : ℕ → ℕ
  stakeRequirement : ℕ
  operatorCutBps : ℕ
  failureThreshold : ℕ
  shieldMinScore : ℤ

/-- The storage that the constructor leaves, over a USDC in state `usdc`. -/
def State.initial (usdc : Token) (treasury : Address) : State where
  usdc := usdc
  treasury := treasury
  duelCount := 0
  duels _ := Duel.empty
  betOf _ _ _ := 0
  claimed _ _ := false
  winClaimedStake _ := 0
  paidOut _ := 0
  itemPrice k := if k = 0 then 500000 else if k = 1 then 1000000 else if k = 2 then 2000000 else 0
  injectionsIngested _ := 0
  survivedInjections _ := 0
  injectionsAgainst _ _ := 0
  agents _ := AgentInfo.empty
  injectionEscrows _ := 0
  injectionTarget _ := 0
  injectionCount := 0
  prizePool _ := 0
  stakeRequirement := 50000000
  operatorCutBps := 1000
  failureThreshold := 3
  shieldMinScore := 0

/-- `constructor`. -/
def deploy (C : Config) (usdc : Token) (treasury : Address) : Tx Error State := do
  require (C.usdc ≠ 0) "usdc=0"
  require (C.recorder ≠ 0) "recorder=0"
  require (treasury ≠ 0) "treasury=0"
  return .initial usdc treasury

namespace State

/-- `_existingDuel`. -/
def existingDuel (s : State) (duelId : ℕ) : Tx Error Duel := do
  revertIf ((s.duels duelId).status = .none) .duelDoesNotExist
  return s.duels duelId

/-- `_liveDuel`. -/
def liveDuel (s : State) (duelId : ℕ) : Tx Error Duel := do
  let d ← s.existingDuel duelId
  revertIf (d.status ≠ .live) .duelNotLive
  return d

/-- `_resilienceRatio`. -/
def resilienceRatio (s : State) (agent : Address) : Tx Error ℕ :=
  let ing := s.injectionsIngested agent
  if ing = 0 then return 0
  else do
    let scaled ← U256.mul (s.survivedInjections agent) 10000
    return scaled / ing

/-- `_ironShieldWinner`. -/
def ironShieldWinner (s : State) (d : Duel) : Tx Error Address :=
  let aOk := 0 < s.injectionsIngested d.agentA ∧ s.shieldMinScore ≤ d.scoreA
  let bOk := 0 < s.injectionsIngested d.agentB ∧ s.shieldMinScore ≤ d.scoreB
  if aOk ∧ bOk then do
    let ratioA ← s.resilienceRatio d.agentA
    let ratioB ← s.resilienceRatio d.agentB
    return if ratioB ≤ ratioA then d.agentA else d.agentB
  else if aOk then return d.agentA
  else if bOk then return d.agentB
  else return 0

end State

/-! ## Developers -/

/-- `if (stake > 0) usdc.safeTransferFrom(…)`. -/
def pullStake (C : Config) (usdc : Token) (developer : Address) (stake : ℕ) : Tx Error Token :=
  if 0 < stake then usdc.safeTransferFrom C.self developer stake else return usdc

def registerAgent (C : Config) (s : State) (m : Msg) (agent : Address) : Tx Error State := do
  revertIf (agent = 0) .zeroAgent
  revertIf ((s.agents agent).registered = true) .alreadyRegistered
  let stake := s.stakeRequirement
  let usdc ← pullStake C s.usdc m.sender stake
  let info : AgentInfo := { developer := m.sender, stake, failures := 0, registered := true }
  return { s with usdc, agents := Function.update s.agents agent info }

/-! ## Recorder: duel lifecycle and scoring -/

/-- Returns the id of the new duel. -/
def createDuel (C : Config) (s : State) (m : Msg) (agentA agentB : Address)
    (bettingSecs tradingSecs : ℕ) : Tx Error (State × ℕ) := do
  revertIf (m.sender ≠ C.recorder) .notRecorder
  revertIf (agentA = 0 ∨ agentB = 0) .zeroAgent
  revertIf (agentA = agentB) .sameAgent
  revertIf (tradingSecs = 0) .zeroAmount
  revertIf ((s.agents agentA).registered = false ∨ (s.agents agentB).registered = false)
    .notRegistered
  let duelId ← U256.add s.duelCount 1
  let nowTs := U64.cast m.timestamp
  let tradingStartsAt ← U64.add nowTs bettingSecs
  let endsAt ← U64.add tradingStartsAt tradingSecs
  let d := { s.duels duelId with
    agentA, agentB, startAt := nowTs, tradingStartsAt, endsAt, status := .live }
  return ({ s with duelCount := duelId, duels := Function.update s.duels duelId d }, duelId)

/-- The score of a reported call goes to the agent's side of the duel. -/
def recordScore (d : Duel) (agent : Address) (rBps : ℤ) : Tx Error Duel :=
  if agent = d.agentA then do
    let scoreA ← I256.add d.scoreA rBps
    return { d with scoreA }
  else do
    let scoreB ← I256.add d.scoreB rBps
    return { d with scoreB }

/-- `if (ingestedInjection) {…}`: the agent's resilience counters. -/
def recordIngestion (s : State) (agent : Address) (ingestedInjection survived : Bool) :
    Tx Error State :=
  if ingestedInjection then do
    let ingested ← U256.add (s.injectionsIngested agent) 1
    let s := { s with injectionsIngested := Function.update s.injectionsIngested agent ingested }
    if survived then do
      let survivals ← U256.add (s.survivedInjections agent) 1
      return { s with
        survivedInjections := Function.update s.survivedInjections agent survivals }
    else return s
  else return s

/-- `if (failed) {…}`: a model failure of this registration. -/
def recordFailure (s : State) (agent : Address) (failed : Bool) : Tx Error State :=
  if failed then do
    let failures ← U256.add (s.agents agent).failures 1
    return { s with agents := Function.update s.agents agent { s.agents agent with failures } }
  else return s

/-- `if (injectionId != 0) {…}`: the escrow of the injection goes to the developer of the agent
that survived it, or into the duel's prize pool. -/
def settleBounty (C : Config) (s : State) (duelId : ℕ) (agent : Address) (injectionId : ℕ)
    (survived : Bool) : Tx Error State :=
  let escrow := s.injectionEscrows injectionId
  if injectionId = 0 ∨ escrow = 0 then return s
  else do
    revertIf (s.injectionTarget injectionId ≠ agent) .injectionAgentMismatch
    let s := { s with injectionEscrows := Function.update s.injectionEscrows injectionId 0 }
    let dev := (s.agents agent).developer
    if survived = true ∧ dev ≠ 0 then do
      let usdc ← s.usdc.safeTransfer C.self dev escrow
      return { s with usdc }
    else do
      let total ← U256.add (s.prizePool duelId) escrow
      return { s with prizePool := Function.update s.prizePool duelId total }

def reportCall (C : Config) (s : State) (m : Msg) (duelId : ℕ) (agent : Address)
    (injectionId : ℕ) (rBps : ℤ) (ingestedInjection survived failed : Bool) : Tx Error State := do
  revertIf (m.sender ≠ C.recorder) .notRecorder
  let d ← s.liveDuel duelId
  revertIf (agent ≠ d.agentA ∧ agent ≠ d.agentB) .unknownAgent
  let d ← recordScore d agent rBps
  let s := { s with duels := Function.update s.duels duelId d }
  let s ← recordIngestion s agent ingestedInjection survived
  let s ← recordFailure s agent failed
  settleBounty C s duelId agent injectionId survived

/-- `_closeOutStake`: refunds the stake or returns the forfeited amount. -/
def closeOutStake (C : Config) (s : State) (agent dev : Address) : Tx Error (State × ℕ) :=
  let info := s.agents agent
  let forfeit := s.failureThreshold ≤ info.failures
  let closed := { info with stake := 0, failures := 0, registered := false }
  let s := { s with agents := Function.update s.agents agent closed }
  if info.stake = 0 then return (s, 0)
  else if forfeit then return (s, info.stake)
  else do
    let usdc ← s.usdc.safeTransfer C.self dev info.stake
    return ({ s with usdc }, 0)

/-- The Alpha half of the prize pool. -/
def payAlpha (C : Config) (usdc : Token) (alphaDev : Address) (alphaPrize : ℕ) : Tx Error Token :=
  if 0 < alphaPrize ∧ alphaDev ≠ 0 then usdc.safeTransfer C.self alphaDev alphaPrize
  else return usdc

/-- The shield half of the prize pool, which rolls to the Alpha winner when no agent is
eligible. -/
def payShield (C : Config) (usdc : Token) (alphaDev shieldDev : Address) (shieldPrize : ℕ) :
    Tx Error Token :=
  if 0 < shieldPrize then
    if shieldDev ≠ 0 then usdc.safeTransfer C.self shieldDev shieldPrize
    else if alphaDev ≠ 0 then usdc.safeTransfer C.self alphaDev shieldPrize
    else return usdc
  else return usdc

def resolve (C : Config) (s : State) (m : Msg) (duelId : ℕ) : Tx Error State := do
  let d ← s.existingDuel duelId
  revertIf (d.status = .resolved) .duelAlreadyResolved
  revertIf (m.timestamp < d.endsAt) .duelNotOver
  -- the developers are read before the agents are closed out
  let devA := (s.agents d.agentA).developer
  let devB := (s.agents d.agentB).developer
  let winner := if d.scoreB ≤ d.scoreA then d.agentA else d.agentB
  let shieldWinner ← s.ironShieldWinner d
  let pool := s.prizePool duelId
  let s := { s with
    duels := Function.update s.duels duelId { d with status := .resolved, winner, shieldWinner }
    prizePool := Function.update s.prizePool duelId 0 }
  let (s, forfeitA) ← closeOutStake C s d.agentA devA
  let pool ← U256.add pool forfeitA
  let (s, forfeitB) ← closeOutStake C s d.agentB devB
  let pool ← U256.add pool forfeitB
  let alphaPrize := pool / 2
  let shieldPrize ← U256.sub pool alphaPrize
  let alphaDev := if winner = d.agentA then devA else devB
  let shieldDev := if shieldWinner = d.agentA then devA
    else if shieldWinner = d.agentB then devB else 0
  let usdc ← payAlpha C s.usdc alphaDev alphaPrize
  let usdc ← payShield C usdc alphaDev shieldDev shieldPrize
  return { s with usdc }

/-! ## Spectators: betting and chaos injections -/

/-- The stake of a bet joins its side's pool. -/
def addToPool (d : Duel) (onA : Bool) (amount : ℕ) : Tx Error Duel :=
  if onA then do
    let poolA ← U256.add d.poolA amount
    return { d with poolA }
  else do
    let poolB ← U256.add d.poolB amount
    return { d with poolB }

def bet (C : Config) (s : State) (m : Msg) (duelId : ℕ) (onA : Bool) (amount : ℕ) :
    Tx Error State := do
  let d ← s.liveDuel duelId
  revertIf (d.tradingStartsAt ≤ m.timestamp) .bettingClosed
  revertIf (amount = 0) .zeroAmount
  let usdc ← s.usdc.safeTransferFrom C.self m.sender amount
  let stake ← U256.add (s.betOf duelId onA m.sender) amount
  let bets := Function.update (s.betOf duelId) onA
    (Function.update (s.betOf duelId onA) m.sender stake)
  let d ← addToPool d onA amount
  return { s with
    usdc
    betOf := Function.update s.betOf duelId bets
    duels := Function.update s.duels duelId d }

/-- `if (operatorCut > 0) usdc.safeTransfer(treasury, operatorCut)`. -/
def payOperator (C : Config) (usdc : Token) (treasury : Address) (operatorCut : ℕ) :
    Tx Error Token :=
  if 0 < operatorCut then usdc.safeTransfer C.self treasury operatorCut else return usdc

/-- Returns the id of the new injection. -/
def injectChaos (C : Config) (s : State) (m : Msg) (duelId : ℕ) (target : Address)
    (itemKind : ℕ) : Tx Error (State × ℕ) := do
  let d ← s.liveDuel duelId
  revertIf (m.timestamp < d.tradingStartsAt) .tradingNotStarted
  revertIf (target ≠ d.agentA ∧ target ≠ d.agentB) .unknownAgent
  revertIf (itemCount ≤ itemKind) .badItem
  let price := s.itemPrice itemKind
  revertIf (price = 0) .itemDisabled
  let usdc ← s.usdc.safeTransferFrom C.self m.sender price
  let scaled ← U256.mul price s.operatorCutBps
  let operatorCut := scaled / 10000
  let escrow ← U256.sub price operatorCut
  let injectionId ← U256.add s.injectionCount 1
  let hits ← U256.add (s.injectionsAgainst duelId target) 1
  let against := Function.update (s.injectionsAgainst duelId) target hits
  let usdc ← payOperator C usdc s.treasury operatorCut
  return ({ s with
    usdc
    injectionCount := injectionId
    injectionEscrows := Function.update s.injectionEscrows injectionId escrow
    injectionTarget := Function.update s.injectionTarget injectionId target
    injectionsAgainst := Function.update s.injectionsAgainst duelId against }, injectionId)

def fundPrizePool (C : Config) (s : State) (m : Msg) (duelId amount : ℕ) : Tx Error State := do
  let _ ← s.existingDuel duelId
  revertIf (amount = 0) .zeroAmount
  let usdc ← s.usdc.safeTransferFrom C.self m.sender amount
  let total ← U256.add (s.prizePool duelId) amount
  return { s with usdc, prizePool := Function.update s.prizePool duelId total }

/-- The payout of a winning bettor: its share, or what is left of the pot for the last winning
claimant, who sweeps the rounding dust. -/
def winnerPayout (s : State) (duelId winningPool totalPool myWinSide newClaimed : ℕ) :
    Tx Error ℕ :=
  if newClaimed = winningPool then U256.sub totalPool (s.paidOut duelId)
  else do
    let scaled ← U256.mul myWinSide totalPool
    return scaled / winningPool

/-- `if (winningPool == 0) {…} else {…}`: the payout, with the counters of the winning side. -/
def claimPayout (s : State) (m : Msg) (duelId : ℕ) (winnerIsA : Bool)
    (winningPool totalPool : ℕ) : Tx Error (State × ℕ) :=
  let myWinSide := s.betOf duelId winnerIsA m.sender
  if winningPool = 0 then do
    let payout ← U256.add (s.betOf duelId true m.sender) (s.betOf duelId false m.sender)
    return (s, payout)
  else do
    revertIf (myWinSide = 0) .nothingToClaim
    let newClaimed ← U256.add (s.winClaimedStake duelId) myWinSide
    let payout ← winnerPayout s duelId winningPool totalPool myWinSide newClaimed
    let paid ← U256.add (s.paidOut duelId) payout
    return ({ s with
      winClaimedStake := Function.update s.winClaimedStake duelId newClaimed
      paidOut := Function.update s.paidOut duelId paid }, payout)

/-- Returns the payout. -/
def claim (C : Config) (s : State) (m : Msg) (duelId : ℕ) : Tx Error (State × ℕ) := do
  let d ← s.existingDuel duelId
  revertIf (d.status ≠ .resolved) .duelNotOver
  revertIf (s.claimed duelId m.sender = true) .alreadyClaimed
  let winnerIsA := decide (d.winner = d.agentA)
  let winningPool := if winnerIsA then d.poolA else d.poolB
  let totalPool ← U256.add d.poolA d.poolB
  let (s, payout) ← claimPayout s m duelId winnerIsA winningPool totalPool
  revertIf (payout = 0) .nothingToClaim
  let claimed := Function.update (s.claimed duelId) m.sender true
  let s := { s with claimed := Function.update s.claimed duelId claimed }
  let usdc ← s.usdc.safeTransfer C.self m.sender payout
  return ({ s with usdc }, payout)

/-! ## Recorder admin -/

def setItemPrice (C : Config) (s : State) (m : Msg) (itemKind price : ℕ) : Tx Error State := do
  revertIf (m.sender ≠ C.recorder) .notRecorder
  revertIf (itemCount ≤ itemKind) .badItem
  return { s with itemPrice := Function.update s.itemPrice itemKind price }

def setTreasury (C : Config) (s : State) (m : Msg) (newTreasury : Address) : Tx Error State := do
  revertIf (m.sender ≠ C.recorder) .notRecorder
  require (newTreasury ≠ 0) "treasury=0"
  return { s with treasury := newTreasury }

def setStakeRequirement (C : Config) (s : State) (m : Msg) (v : ℕ) : Tx Error State := do
  revertIf (m.sender ≠ C.recorder) .notRecorder
  return { s with stakeRequirement := v }

def setOperatorCutBps (C : Config) (s : State) (m : Msg) (v : ℕ) : Tx Error State := do
  revertIf (m.sender ≠ C.recorder) .notRecorder
  revertIf (10000 < v) .badParam
  return { s with operatorCutBps := v }

def setFailureThreshold (C : Config) (s : State) (m : Msg) (v : ℕ) : Tx Error State := do
  revertIf (m.sender ≠ C.recorder) .notRecorder
  revertIf (v = 0) .badParam
  return { s with failureThreshold := v }

def setShieldMinScore (C : Config) (s : State) (m : Msg) (v : ℤ) : Tx Error State := do
  revertIf (m.sender ≠ C.recorder) .notRecorder
  return { s with shieldMinScore := v }

/-! ## The contract as a state machine -/

/-- An external call: a function of the contract, or a call on USDC itself. -/
inductive Call where
  | registerAgent (agent : Address)
  | createDuel (agentA agentB : Address) (bettingSecs tradingSecs : ℕ)
  | reportCall (duelId : ℕ) (agent : Address) (injectionId : ℕ) (rBps : ℤ)
      (ingestedInjection survived failed : Bool)
  | resolve (duelId : ℕ)
  | bet (duelId : ℕ) (onA : Bool) (amount : ℕ)
  | injectChaos (duelId : ℕ) (target : Address) (itemKind : ℕ)
  | fundPrizePool (duelId amount : ℕ)
  | claim (duelId : ℕ)
  | setItemPrice (itemKind price : ℕ)
  | setTreasury (newTreasury : Address)
  | setStakeRequirement (v : ℕ)
  | setOperatorCutBps (v : ℕ)
  | setFailureThreshold (v : ℕ)
  | setShieldMinScore (v : ℤ)
  | usdc (op : Token.Op)
  deriving DecidableEq

/-- A function without a return value. -/
def void (x : Tx Error State) : Tx Error (State × ℕ) := do
  let s ← x
  return (s, 0)

/-- A call from outside, with its return value. -/
def exec (C : Config) (s : State) (m : Msg) : Call → Tx Error (State × ℕ)
  | .registerAgent agent => void (registerAgent C s m agent)
  | .createDuel agentA agentB bettingSecs tradingSecs =>
    createDuel C s m agentA agentB bettingSecs tradingSecs
  | .reportCall duelId agent injectionId rBps ingestedInjection survived failed =>
    void (reportCall C s m duelId agent injectionId rBps ingestedInjection survived failed)
  | .resolve duelId => void (resolve C s m duelId)
  | .bet duelId onA amount => void (bet C s m duelId onA amount)
  | .injectChaos duelId target itemKind => injectChaos C s m duelId target itemKind
  | .fundPrizePool duelId amount => void (fundPrizePool C s m duelId amount)
  | .claim duelId => claim C s m duelId
  | .setItemPrice itemKind price => void (setItemPrice C s m itemKind price)
  | .setTreasury newTreasury => void (setTreasury C s m newTreasury)
  | .setStakeRequirement v => void (setStakeRequirement C s m v)
  | .setOperatorCutBps v => void (setOperatorCutBps C s m v)
  | .setFailureThreshold v => void (setFailureThreshold C s m v)
  | .setShieldMinScore v => void (setShieldMinScore C s m v)
  | .usdc op => void do
    let usdc ← external (op.exec s.usdc m.sender)
    return { s with usdc }

/-- An accepted call and what it returned. -/
structure Event where
  msg : Msg
  call : Call
  ret : ℕ

/-- No account but the contract acts for it, and USDC reaches it through its functions only. -/
def Legal (C : Config) (m : Msg) (c : Call) : Prop :=
  m.sender ≠ C.self ∧
    match c with
    | .setTreasury newTreasury => newTreasury ≠ C.self
    | .usdc op => op.credit C.self = 0
    | _ => True

instance (C : Config) (m : Msg) (c : Call) : Decidable (Legal C m c) := by
  unfold Legal
  cases c <;> infer_instance

/-- An accepted call. A reverted call changes nothing and is no step. -/
def Step (C : Config) (s : State) (e : Event) (s' : State) : Prop :=
  Legal C e.msg e.call ∧ exec C s e.msg e.call = .ok (s', e.ret)

/-- The contract right after its deployment at `C.self`, where nobody sent USDC before. -/
structure Deployed (C : Config) (s : State) : Prop where
  self_ne : C.self ≠ 0
  deploy : deploy C s.usdc s.treasury = .ok s
  treasury : s.treasury ≠ C.self
  balance : s.usdc.balanceOf C.self = 0
  reserved : s.usdc.Reserved C.self

/-- What a call does as a step, when it is legal and accepted. -/
def accept (C : Config) (s : State) (i : Msg × Call) : Option (Event × State) :=
  if Legal C i.1 i.2 then
    match exec C s i.1 i.2 with
    | .ok (s', ret) => some (⟨i.1, i.2, ret⟩, s')
    | .error _ => none
  else none

/-- The run that a list of calls makes, when all are accepted. -/
def play (C : Config) (s : State) (calls : List (Msg × Call)) :
    Option (List (Trace.Step State Event) × State) :=
  Trace.Run.exec (accept C) s calls

/-- The runs of the contract. -/
abbrev Run (C : Config) (s₀ : State) (tr : List (Trace.Step State Event)) (s : State) : Prop :=
  Trace.Run (Step C) s₀ tr s

theorem accept_step {C : Config} {s s' : State} {i : Msg × Call} {e : Event}
    (h : accept C s i = some (e, s')) : Step C s e s' := by
  unfold accept at h
  split at h
  · rename_i hl
    split at h
    · rename_i hx
      simp only [Option.some.injEq, Prod.mk.injEq] at h
      obtain ⟨rfl, rfl⟩ := h
      exact ⟨hl, hx⟩
    · cases h
  · cases h

theorem accept_call {C : Config} {s s' : State} {i : Msg × Call} {e : Event}
    (h : accept C s i = some (e, s')) : e.call = i.2 := by
  unfold accept at h
  split at h
  · split at h
    · simp only [Option.some.injEq, Prod.mk.injEq] at h
      rw [← h.1]
    · cases h
  · cases h

/-- The calls that `play` accepts are a run. -/
theorem Run.of_play {C : Config} {s : State} {calls : List (Msg × Call)}
    {r : List (Trace.Step State Event) × State} (h : play C s calls = some r) : Run C s r.1 r.2 :=
  Trace.Run.of_exec (f := accept C) (fun _ _ _ _ hi => accept_step hi) h

end Colosseum
end Arcane
