import Arcane.Lib.Machine
import Arcane.Lib.Token

/-!
# The BondVault contract

`contracts/src/BondVault.sol`: its storage (`State`) and its external functions, each under the
source's name, as a function to `Tx Error`, with the `Ownable` and `Pausable` parts it inherits.
The bond token is a standard token (`Evm.Token`). Events are left out.

* The activity checker is another contract, which only answers: `Checker` is what it answers
  during one call, so it may answer differently in the next.
* `Call` and `exec`: the external functions as one step function, with the calls other accounts
  make on the bond token.
* `Legal`, `Step`, `Run`: the calls of accounts other than the vault and the burn address, and the
  runs they make. `play`: the run of a list of calls, computed.
-/

namespace Arcane
namespace BondVault

open Evm

/-- `BURN_ADDRESS`. -/
def burnAddress : Address := 0xdEaD

structure Bond where
  balance : ℕ
  postedAt : ℕ
  lastActivityAt : ℕ
  lastActivitySignal : ℕ
  oracleApprovedRelease : Bool
  operator : Address
  deriving DecidableEq

/-- A storage slot that was never written. -/
def Bond.empty : Bond := ⟨0, 0, 0, 0, false, 0⟩

inductive Error where
  | notOracle
  | zeroAmount
  | insufficientBond
  | insufficientCounterBond
  | releaseTooEarly (readyAt : ℕ)
  | noBond
  | invalidAddress
  | agentStillAlive
  | activityCheckerUnset
  | counterBondLessThanSlash
  | ownableUnauthorizedAccount (account : Address)
  | ownableInvalidOwner (owner : Address)
  | enforcedPause
  | expectedPause
  deriving DecidableEq

/-- The contract's address and its immutable. -/
structure Config where
  self : Address
  bondToken : Address

/-- What the activity checker answers during a call; `none` is a revert. -/
structure Checker where
  getActivitySignal : Address → Option ℕ
  isAlive : Address → ℕ → ℕ → Option Bool

/-- The storage, with the state of the bond token. -/
structure State where
  bondToken : Token
  owner : Address
  paused : Bool
  oracle : Address
  activityChecker : Address
  releaseWindow : ℕ
  livenessTimeout : ℕ
  bonds : Address → Bond
  counterBonds : Address → ℕ

/-- The storage that the constructor leaves, over a bond token in state `bondToken`. -/
def State.initial (bondToken : Token) (owner oracle : Address)
    (releaseWindow livenessTimeout : ℕ) : State where
  bondToken := bondToken
  owner := owner
  paused := false
  oracle := oracle
  activityChecker := 0
  releaseWindow := releaseWindow
  livenessTimeout := livenessTimeout
  bonds _ := Bond.empty
  counterBonds _ := 0

/-- `constructor`. -/
def deploy (C : Config) (m : Msg) (bondToken : Token) (oracle : Address)
    (releaseWindow livenessTimeout : ℕ) : Tx Error State := do
  revertIf (C.bondToken = 0) .invalidAddress
  return .initial bondToken m.sender oracle releaseWindow livenessTimeout

/-! ## Admin -/

/-- The modifier `onlyOwner`. -/
def onlyOwner (s : State) (m : Msg) : Tx Error Unit :=
  revertIf (m.sender ≠ s.owner) (.ownableUnauthorizedAccount m.sender)

/-- The modifier `whenNotPaused`. -/
def whenNotPaused (s : State) : Tx Error Unit := revertIf (s.paused = true) .enforcedPause

/-- The modifier `onlyOracle`. -/
def onlyOracle (s : State) (m : Msg) : Tx Error Unit := revertIf (m.sender ≠ s.oracle) .notOracle

def transferOwnership (s : State) (m : Msg) (newOwner : Address) : Tx Error State := do
  onlyOwner s m
  revertIf (newOwner = 0) (.ownableInvalidOwner 0)
  return { s with owner := newOwner }

def renounceOwnership (s : State) (m : Msg) : Tx Error State := do
  onlyOwner s m
  return { s with owner := 0 }

def setOracle (s : State) (m : Msg) (oracle : Address) : Tx Error State := do
  onlyOwner s m
  return { s with oracle }

def setActivityChecker (s : State) (m : Msg) (checker : Address) : Tx Error State := do
  onlyOwner s m
  return { s with activityChecker := checker }

def setReleaseWindow (s : State) (m : Msg) (window : ℕ) : Tx Error State := do
  onlyOwner s m
  return { s with releaseWindow := window }

def setLivenessTimeout (s : State) (m : Msg) (timeout : ℕ) : Tx Error State := do
  onlyOwner s m
  return { s with livenessTimeout := timeout }

def pause (s : State) (m : Msg) : Tx Error State := do
  onlyOwner s m
  whenNotPaused s
  return { s with paused := true }

def unpause (s : State) (m : Msg) : Tx Error State := do
  onlyOwner s m
  revertIf (s.paused = false) .expectedPause
  return { s with paused := false }

/-! ## Agent actions -/

/-- The activity signal of a new post: the checker's, when one is set. -/
def initialSignal (s : State) (checker : Checker) (agent : Address) : Tx Error ℕ :=
  if s.activityChecker ≠ 0 then reply (checker.getActivitySignal agent)
  else return (s.bonds agent).lastActivitySignal

def post (C : Config) (s : State) (m : Msg) (checker : Checker) (amount : ℕ) :
    Tx Error State := do
  whenNotPaused s
  revertIf (amount = 0) .zeroAmount
  let bondToken ← s.bondToken.safeTransferFrom C.self m.sender amount
  let balance ← U256.add (s.bonds m.sender).balance amount
  let lastActivitySignal ← initialSignal s checker m.sender
  let b : Bond := {
    balance
    postedAt := U64.cast m.timestamp
    lastActivityAt := U64.cast m.timestamp
    lastActivitySignal
    oracleApprovedRelease := false
    operator := m.sender }
  return { s with bondToken, bonds := Function.update s.bonds m.sender b }

def release (C : Config) (s : State) (m : Msg) : Tx Error State := do
  let b := s.bonds m.sender
  revertIf (b.balance = 0) .noBond
  let readyAt ← U256.add b.postedAt s.releaseWindow
  revertIf (m.timestamp < readyAt ∧ b.oracleApprovedRelease = false) (.releaseTooEarly readyAt)
  let closed := { b with balance := 0, oracleApprovedRelease := false }
  let bondToken ← s.bondToken.safeTransfer C.self m.sender b.balance
  return { s with bondToken, bonds := Function.update s.bonds m.sender closed }

/-! ## Slasher actions -/

def postCounterBond (C : Config) (s : State) (m : Msg) (amount : ℕ) : Tx Error State := do
  whenNotPaused s
  revertIf (amount = 0) .zeroAmount
  let bondToken ← s.bondToken.safeTransferFrom C.self m.sender amount
  let balance ← U256.add (s.counterBonds m.sender) amount
  return { s with bondToken, counterBonds := Function.update s.counterBonds m.sender balance }

def withdrawCounterBond (C : Config) (s : State) (m : Msg) (amount : ℕ) : Tx Error State := do
  revertIf (amount = 0) .zeroAmount
  let bal := s.counterBonds m.sender
  revertIf (bal < amount) .insufficientCounterBond
  let bondToken ← s.bondToken.safeTransfer C.self m.sender amount
  return { s with
    bondToken, counterBonds := Function.update s.counterBonds m.sender (bal - amount) }

def slash (C : Config) (s : State) (m : Msg) (agent : Address) (amount : ℕ) :
    Tx Error State := do
  onlyOracle s m
  whenNotPaused s
  revertIf (amount = 0) .zeroAmount
  let b := s.bonds agent
  revertIf (b.balance < amount) .insufficientBond
  let cb := s.counterBonds m.sender
  revertIf (cb < amount) .counterBondLessThanSlash
  let bondToken ← s.bondToken.safeTransfer C.self burnAddress amount
  let bondToken ← bondToken.safeTransfer C.self burnAddress amount
  -- the event `BondSlashed` carries the checked product `amount * 2`
  let _ ← U256.mul amount 2
  return { s with
    bondToken
    bonds := Function.update s.bonds agent { b with balance := b.balance - amount }
    counterBonds := Function.update s.counterBonds m.sender (cb - amount) }

def approveRelease (s : State) (m : Msg) (agent : Address) : Tx Error State := do
  onlyOracle s m
  whenNotPaused s
  let b := s.bonds agent
  revertIf (b.balance = 0) .noBond
  return { s with
    bonds := Function.update s.bonds agent { b with oracleApprovedRelease := true } }

/-- `counterBondOf`. -/
def State.counterBondOf (s : State) (slasher : Address) : ℕ := s.counterBonds slasher

/-! ## Liveness -/

/-- `if (alive) {…}`: the refreshed snapshot of the agent's activity. -/
def Bond.refreshed (b : Bond) (m : Msg) (current : ℕ) (alive : Bool) : Bond :=
  if alive then
    { b with lastActivitySignal := current, lastActivityAt := U64.cast m.timestamp }
  else b

def pokeActivity (s : State) (m : Msg) (checker : Checker) (agent : Address) :
    Tx Error State := do
  revertIf (s.activityChecker = 0) .activityCheckerUnset
  let b := s.bonds agent
  revertIf (b.balance = 0) .noBond
  let current ← reply (checker.getActivitySignal agent)
  let dt ← U256.sub m.timestamp b.lastActivityAt
  let alive ← reply (checker.isAlive agent b.lastActivitySignal dt)
  return { s with bonds := Function.update s.bonds agent (b.refreshed m current alive) }

def isAgentAlive (s : State) (m : Msg) (agent : Address) : Tx Error Bool :=
  let b := s.bonds agent
  if b.balance = 0 then return false
  else do
    let expiry ← U256.add b.lastActivityAt s.livenessTimeout
    return decide (m.timestamp < expiry)

def releaseToOperator (C : Config) (s : State) (m : Msg) (agent : Address) : Tx Error State := do
  let b := s.bonds agent
  revertIf (b.balance = 0) .noBond
  let alive ← isAgentAlive s m agent
  revertIf (alive = true) .agentStillAlive
  revertIf (b.operator = 0) .invalidAddress
  let bondToken ← s.bondToken.safeTransfer C.self b.operator b.balance
  return { s with bondToken, bonds := Function.update s.bonds agent { b with balance := 0 } }

/-! ## The contract as a state machine -/

/-- An external call: a function of the contract, or a call on the bond token itself. -/
inductive Call where
  | post (amount : ℕ)
  | release
  | postCounterBond (amount : ℕ)
  | withdrawCounterBond (amount : ℕ)
  | slash (agent : Address) (amount : ℕ)
  | approveRelease (agent : Address)
  | pokeActivity (agent : Address)
  | releaseToOperator (agent : Address)
  | transferOwnership (newOwner : Address)
  | renounceOwnership
  | setOracle (oracle : Address)
  | setActivityChecker (checker : Address)
  | setReleaseWindow (window : ℕ)
  | setLivenessTimeout (timeout : ℕ)
  | pause
  | unpause
  | bondToken (op : Token.Op)
  deriving DecidableEq

/-- A call with its context and what the activity checker answers to it. -/
structure Event where
  msg : Msg
  checker : Checker
  call : Call

/-- A call from outside. -/
def exec (C : Config) (s : State) (e : Event) : Tx Error State :=
  match e.call with
  | .post amount => post C s e.msg e.checker amount
  | .release => release C s e.msg
  | .postCounterBond amount => postCounterBond C s e.msg amount
  | .withdrawCounterBond amount => withdrawCounterBond C s e.msg amount
  | .slash agent amount => slash C s e.msg agent amount
  | .approveRelease agent => approveRelease s e.msg agent
  | .pokeActivity agent => pokeActivity s e.msg e.checker agent
  | .releaseToOperator agent => releaseToOperator C s e.msg agent
  | .transferOwnership newOwner => transferOwnership s e.msg newOwner
  | .renounceOwnership => renounceOwnership s e.msg
  | .setOracle oracle => setOracle s e.msg oracle
  | .setActivityChecker checker => setActivityChecker s e.msg checker
  | .setReleaseWindow window => setReleaseWindow s e.msg window
  | .setLivenessTimeout timeout => setLivenessTimeout s e.msg timeout
  | .pause => pause s e.msg
  | .unpause => unpause s e.msg
  | .bondToken op => do
    let bondToken ← external (op.exec s.bondToken e.msg.sender)
    return { s with bondToken }

/-- Nobody acts for the vault, and nobody has the key of the burn address. -/
def Legal (C : Config) (m : Msg) : Prop := m.sender ≠ C.self ∧ m.sender ≠ burnAddress

instance (C : Config) (m : Msg) : Decidable (Legal C m) := inferInstanceAs (Decidable (_ ∧ _))

/-- An accepted call. -/
abbrev Step (C : Config) : State → Event → State → Prop :=
  Accepts (fun e => Legal C e.msg) (exec C)

/-- The contract right after its deployment at `C.self`, which approved nobody before. -/
structure Deployed (C : Config) (s : State) : Prop where
  self_ne : C.self ≠ 0
  self_ne_burn : C.self ≠ burnAddress
  deploy : ∃ m : Msg, deploy C m s.bondToken s.oracle s.releaseWindow s.livenessTimeout = .ok s
  reserved : s.bondToken.Reserved C.self

/-- The run that a list of calls makes, when all are accepted. -/
def play (C : Config) (s : State) (calls : List Event) :
    Option (List (Trace.Step State Event) × State) :=
  Evm.play (fun e => Legal C e.msg) (exec C) s calls

/-- The runs of the contract. -/
abbrev Run (C : Config) (s₀ : State) (tr : List (Trace.Step State Event)) (s : State) : Prop :=
  Trace.Run (Step C) s₀ tr s

end BondVault
end Arcane
