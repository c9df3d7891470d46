import Arcane.Lib.Abi
import Arcane.Lib.Machine

/-!
# The MemoryAnchor contract

`contracts/src/MemoryAnchor.sol`: its storage (`State`), its external functions and its views, each
under the source's name. Events are left out.

* The identity registry is another contract, which only answers: `ownerOf` is what it answers during
  one call, so an identity may have another owner in the next.
* `Call`, `exec`, `Step`: the external functions as one machine.
-/

namespace Arcane
namespace MemoryAnchor

open Evm Abi

structure Anchor where
  root : Bytes32
  timestamp : ℕ
  sequence : ℕ
  deriving DecidableEq

/-- A storage slot that was never written. -/
def Anchor.empty : Anchor := ⟨0, 0, 0⟩

structure AnchorRecord where
  root : Bytes32
  ownerAtAnchor : Address
  timestamp : ℕ
  deriving DecidableEq

inductive Error where
  | emptyRoot
  | notIdentityOwner
  | sequenceOutOfRange
  deriving DecidableEq

structure State where
  latest : Address → Anchor
  count : Address → ℕ
  latestByIdentity : ℕ → Anchor
  countByIdentity : ℕ → ℕ
  /-- `_history`. -/
  history : ℕ → List AnchorRecord

def State.initial : State where
  latest _ := .empty
  count _ := 0
  latestByIdentity _ := .empty
  countByIdentity _ := 0
  history _ := []

/-- `_history[identityId].push(record)`. -/
def push (history : ℕ → List AnchorRecord) (identityId : ℕ) (record : AnchorRecord) :
    ℕ → List AnchorRecord :=
  Function.update history identityId (history identityId ++ [record])

/-- `anchor(uint256,bytes32)`. -/
def anchor (ownerOf : ℕ → Option Address) (s : State) (m : Msg) (identityId : ℕ)
    (root : Bytes32) : Tx Error State := do
  revertIf (root = 0) .emptyRoot
  let owner ← reply (ownerOf identityId)
  revertIf (owner ≠ m.sender) .notIdentityOwner
  let next ← U64.add (s.countByIdentity identityId) 1
  return { s with
    latestByIdentity :=
      Function.update s.latestByIdentity identityId ⟨root, U64.cast m.timestamp, next⟩
    countByIdentity := Function.update s.countByIdentity identityId next
    history := push s.history identityId ⟨root, m.sender, m.timestamp⟩ }

/-- `anchor(bytes32)`, the legacy one. -/
def anchorRoot (s : State) (m : Msg) (root : Bytes32) : Tx Error State := do
  revertIf (root = 0) .emptyRoot
  let next ← U64.add (s.count m.sender) 1
  return { s with
    latest := Function.update s.latest m.sender ⟨root, U64.cast m.timestamp, next⟩
    count := Function.update s.count m.sender next
    history := push s.history 0 ⟨root, m.sender, m.timestamp⟩ }

def anchorByAddress (s : State) (m : Msg) (root : Bytes32) : Tx Error State := anchorRoot s m root

/-! ## Views -/

def rootOf (s : State) (agent : Address) : Bytes32 := (s.latest agent).root

def rootOfIdentity (s : State) (identityId : ℕ) : Bytes32 := (s.latestByIdentity identityId).root

def historyLength (s : State) (identityId : ℕ) : ℕ := (s.history identityId).length

def anchorAt (s : State) (identityId sequence : ℕ) : Tx Error AnchorRecord :=
  match (s.history identityId)[sequence]? with
  | some record => .ok record
  | none => .error (.custom .sequenceOutOfRange)

def historicalOwnerOf (s : State) (identityId sequence : ℕ) : Tx Error Address := do
  let record ← anchorAt s identityId sequence
  return record.ownerAtAnchor

def latestRoot (s : State) (identityId : ℕ) : Bytes32 :=
  match (s.history identityId).getLast? with
  | some record => record.root
  | none => 0

/-! ## The machine -/

inductive Call where
  | anchor (identityId : ℕ) (root : Bytes32)
  | anchorRoot (root : Bytes32)
  | anchorByAddress (root : Bytes32)
  deriving DecidableEq

/-- A call with the owners that the identity registry knows during it. -/
structure Event where
  msg : Msg
  ownerOf : ℕ → Option Address
  call : Call

/-- A call from outside. -/
def exec (s : State) (e : Event) : Tx Error State :=
  match e.call with
  | .anchor identityId root => anchor e.ownerOf s e.msg identityId root
  | .anchorRoot root => anchorRoot s e.msg root
  | .anchorByAddress root => anchorByAddress s e.msg root

/-- An accepted call of any account. -/
def Step : State → Event → State → Prop := Accepts (fun _ => True) exec

/-- The identity under which a call anchors, if it is bound to one. -/
def Call.identity : Call → Option ℕ
  | .anchor identityId _ => some identityId
  | .anchorRoot _ | .anchorByAddress _ => none

def Call.root : Call → Bytes32
  | .anchor _ root | .anchorRoot root | .anchorByAddress root => root

end MemoryAnchor
end Arcane
