import Arcane.Constitution.Rules

/-!
# The constitution executor

`contracts/src/ConstitutionExecutor.sol`. Events are left out, and `execute` ends with the message
that it sends to the account.
-/

namespace Arcane
namespace Constitution
namespace Executor

open Text Evm Abi

structure State where
  constitutionOf : Address → Bytes32

def State.initial : State := ⟨fun _ => 0⟩

def onInstall (registry : Registry.State) (s : State) (m : Msg) (data : Bytes) :
    Tx Error State := do
  revertIf (data.length ≠ 32) .invalidInstallData
  let hash ← decoded (bytes32At data 0)
  revertIf (registry.exist hash = false) .unknownConstitution
  revertIf (s.constitutionOf m.sender ≠ 0) .alreadyInstalled
  return ⟨Function.update s.constitutionOf m.sender hash⟩

def onUninstall (s : State) (m : Msg) : Tx Error State := do
  revertIf (s.constitutionOf m.sender = 0) .notInstalled
  return ⟨Function.update s.constitutionOf m.sender 0⟩

/-- `SINGLE_CALL_MODE`. -/
def singleCallMode : Bytes32 := 0

/-- `_tryDecode`. -/
def tryDecode (adapters : Adapters) : Address → Bytes → Tx Error Decoded :=
  Constitution.tryDecode adapters

/-- `_checkVenueBlacklist`. -/
def checkVenueBlacklist (params : Bytes) (target : Address) : Tx Error Unit :=
  Constitution.checkVenueBlacklist params target

/-- `_checkUnauditedContracts`. -/
def checkUnauditedContracts (params : Bytes) (target : Address) : Tx Error Unit :=
  Constitution.checkUnauditedContracts params target

/-- `_checkMaxLeverage`. -/
def checkMaxLeverage (adapters : Adapters) (r : Rule) (innerData : Bytes) : Tx Error Unit :=
  Constitution.checkMaxLeverage (tryDecode adapters) r innerData

/-- `_checkSubdelegationBound`. -/
def checkSubdelegationBound (adapters : Adapters) (r : Rule) (innerData : Bytes) :
    Tx Error Unit :=
  Constitution.checkSubdelegationBound (tryDecode adapters) r innerData

/-- The inline path of `_checkMaxTradeSize`. -/
def checkTransfer (innerData : Bytes) (max : ℕ) : Tx Error Unit :=
  if 68 ≤ innerData.length ∧ slice innerData 0 4 = transferSelector then
    require (ofBytes (slice innerData 36 32) ≤ max) "ConstitutionViolation:MAX_TRADE_SIZE"
  else return

/-- `_checkMaxTradeSize`. -/
def checkMaxTradeSize (adapters : Adapters) (r : Rule) (value : ℕ) (innerData : Bytes) :
    Tx Error Unit := do
  let max ← decoded (decodeUint r.params)
  require (value ≤ max) "ConstitutionViolation:MAX_TRADE_SIZE"
  checkAdapterSize (tryDecode adapters) r innerData max
  checkTransfer innerData max

/-- `_enforce`. -/
def enforce (adapters : Adapters) (r : Rule) (c : Execution) : Tx Error Unit :=
  if r.kind = 1 then checkMaxTradeSize adapters r c.value c.callData
  else if r.kind = 2 then checkVenueBlacklist r.params c.target
  else if r.kind = 3 then checkUnauditedContracts r.params c.target
  else if r.kind = 0 then
    if r.adapter = 0 then return else checkMaxLeverage adapters r c.callData
  else if r.kind = 4 then
    if r.adapter = 0 then return else checkSubdelegationBound adapters r c.callData
  else return

/-- `abi.encodePacked(target, value, data)`. -/
def pack (c : Execution) : Bytes := packedAddress c.target ++ (word c.value ++ c.callData)

/-- The calldata of `executeFromExecutor(mode, executionCalldata)`. -/
def fromExecutorData (mode : Bytes32) (executionCalldata : Bytes) : Bytes :=
  executeFromExecutorSelector ++ (bytes32 mode ++ (word (32 * 2) ++ bytes executionCalldata))

/-- `execute`: the message to the account. -/
def execute (adapters : Adapters) (registry : Registry.State) (s : State) (m : Msg)
    (account : Address) (c : Execution) : Tx Error Bytes := do
  let hash := s.constitutionOf account
  revertIf (hash = 0) .notInstalled
  revertIf (m.sender ≠ account) .notAuthorized
  let rules ← external (Registry.getConstitution registry hash)
  rules.forM fun r => enforce adapters r c
  return fromExecutorData singleCallMode (pack c)

end Executor
end Constitution
end Arcane
