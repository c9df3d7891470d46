import Arcane.Lib.Abi
import Arcane.Lib.Machine

/-!
# The AgentRegistry contract

`contracts/src/AgentRegistry.sol`: its storage and the events it has emitted (`State`), its external
functions and its views, each under the source's name.

* The identity registry and the bond vaults are other contracts, which only answer: `Answers` is
  what they answer during one call.
* `Log`: an event. `State.logs` keeps them in the order in which they were emitted.
* `Call`, `exec`, `Step`: the external functions as one machine.
-/

namespace Arcane
namespace AgentRegistry

open Text Evm Abi

structure Agent where
  identityId : ℕ
  constitutionHash : Bytes32
  bondVault : Address
  darkPoolUrl : Bytes
  operator : Address
  registeredAt : ℕ
  active : Bool
  deriving DecidableEq

/-- A storage slot that was never written. -/
def Agent.empty : Agent := ⟨0, 0, 0, [], 0, 0, false⟩

inductive Error where
  | identityAlreadyRegistered
  | notIdentityOwner
  | noBond
  | notAgentOperator
  | agentDoesNotExist
  deriving DecidableEq

inductive Log where
  | agentRegistered (agentId identityId : ℕ) (operator : Address) (constitutionHash : Bytes32)
  | agentAction (agentId : ℕ) (kind : UInt8) (payload : Bytes) (timestamp : ℕ)
  | agentDeactivated (agentId : ℕ)
  deriving DecidableEq

structure State where
  /-- `_agents`. -/
  agents : ℕ → Agent
  agentByIdentity : ℕ → ℕ
  /-- `_agentCount`. -/
  agentCount : ℕ
  logs : List Log

def State.initial : State where
  agents _ := .empty
  agentByIdentity _ := 0
  agentCount := 0
  logs := []

/-- What `ownerOf` of the identity registry and `balanceOf` of a vault answer; `none` is a
revert. -/
structure Answers where
  ownerOf : ℕ → Option Address
  balanceOf : Address → Address → Option ℕ

/-- Returns the agent id. -/
def register (x : Answers) (s : State) (m : Msg) (identityId : ℕ) (constitutionHash : Bytes32)
    (bondVault : Address) (darkPoolUrl : Bytes) : Tx Error (State × ℕ) := do
  let owner ← reply (x.ownerOf identityId)
  revertIf (owner ≠ m.sender) .notIdentityOwner
  let balance ← reply (x.balanceOf bondVault m.sender)
  revertIf (balance = 0) .noBond
  revertIf (s.agentByIdentity identityId ≠ 0) .identityAlreadyRegistered
  let agentId ← U256.add s.agentCount 1
  let agent : Agent :=
    { identityId := identityId
      constitutionHash := constitutionHash
      bondVault := bondVault
      darkPoolUrl := darkPoolUrl
      operator := m.sender
      registeredAt := U64.cast m.timestamp
      active := true }
  return ({
    agents := Function.update s.agents agentId agent
    agentByIdentity := Function.update s.agentByIdentity identityId agentId
    agentCount := agentId
    logs := s.logs ++ [.agentRegistered agentId identityId m.sender constitutionHash] }, agentId)

def recordAction (s : State) (m : Msg) (agentId : ℕ) (kind : UInt8) (payload : Bytes) :
    Tx Error State := do
  revertIf ((s.agents agentId).operator ≠ m.sender) .notAgentOperator
  return { s with logs := s.logs ++ [.agentAction agentId kind payload m.timestamp] }

def deactivate (s : State) (m : Msg) (agentId : ℕ) : Tx Error State := do
  revertIf ((s.agents agentId).operator ≠ m.sender) .notAgentOperator
  return { s with
    agents := Function.update s.agents agentId { s.agents agentId with active := false }
    logs := s.logs ++ [.agentDeactivated agentId] }

def getAgent (s : State) (agentId : ℕ) : Tx Error Agent := do
  let a := s.agents agentId
  revertIf (a.operator = 0) .agentDoesNotExist
  return a

/-! ## The machine -/

inductive Call where
  | register (identityId : ℕ) (constitutionHash : Bytes32) (bondVault : Address)
      (darkPoolUrl : Bytes)
  | recordAction (agentId : ℕ) (kind : UInt8) (payload : Bytes)
  | deactivate (agentId : ℕ)
  deriving DecidableEq

/-- A call with the answers of the other contracts during it. -/
structure Event where
  msg : Msg
  answers : Answers
  call : Call

/-- A call from outside. -/
def exec (s : State) (e : Event) : Tx Error State :=
  match e.call with
  | .register identityId constitutionHash bondVault darkPoolUrl =>
    Prod.fst <$> register e.answers s e.msg identityId constitutionHash bondVault darkPoolUrl
  | .recordAction agentId kind payload => recordAction s e.msg agentId kind payload
  | .deactivate agentId => deactivate s e.msg agentId

/-- An accepted call of any account. -/
def Step : State → Event → State → Prop := Accepts (fun _ => True) exec

end AgentRegistry
end Arcane
