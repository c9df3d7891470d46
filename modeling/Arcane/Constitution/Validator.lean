import Arcane.Constitution.Rules

/-!
# The constitution validator

`contracts/src/ConstitutionValidator.sol`. Events are left out.
-/

namespace Arcane
namespace Constitution
namespace Validator

open Text Evm Abi

structure State where
  constitutionOf : Address → Bytes32
  entryPointOf : Address → Address

def State.initial : State := ⟨fun _ => 0, fun _ => 0⟩

/-- `DEFAULT_ENTRYPOINT_V07`. -/
def defaultEntryPoint : Address := 0x0000000071727De22E5E9d8BAf0edAc6f37da032

/-- The hash and the entry point of `onInstall`. -/
def installData (data : Bytes) : Tx Error (Bytes32 × Address) :=
  if data.length = 32 then do
    let hash ← decoded (bytes32At data 0)
    return (hash, defaultEntryPoint)
  else if data.length = 64 then do
    let hash ← decoded (bytes32At data 0)
    let ep ← decoded (addressAt data 32)
    revertIf (ep = 0) .invalidInstallData
    return (hash, ep)
  else .error (.custom .invalidInstallData)

def onInstall (registry : Registry.State) (s : State) (m : Msg) (data : Bytes) :
    Tx Error State := do
  let (hash, ep) ← installData data
  revertIf (registry.exist hash = false) .unknownConstitution
  revertIf (s.constitutionOf m.sender ≠ 0) .alreadyInstalled
  return {
    constitutionOf := Function.update s.constitutionOf m.sender hash
    entryPointOf := Function.update s.entryPointOf m.sender ep }

def onUninstall (s : State) (m : Msg) : Tx Error State := do
  revertIf (s.constitutionOf m.sender = 0) .notInstalled
  return {
    constitutionOf := Function.update s.constitutionOf m.sender 0
    entryPointOf := Function.update s.entryPointOf m.sender 0 }

/-- `_reason`. -/
def reason (tag : String) : String := "ConstitutionViolation:" ++ tag

/-- `_selector`. -/
def selector (data : Bytes) : Bytes := slice data 0 4

/-- `_decodeUint256At`. -/
def decodeUint256At (data : Bytes) (offset : ℕ) : ℕ := ofBytes (slice data offset 32)

/-- `_tryDecode`. -/
def tryDecode (adapters : Adapters) : Address → Bytes → Tx Error Decoded :=
  Constitution.tryDecode adapters

/-- `_checkVenueBlacklist`. -/
def checkVenueBlacklist (params : Bytes) (target : Address) : Tx Error Unit :=
  Constitution.checkVenueBlacklist params target

/-- `_checkUnauditedContracts`. -/
def checkUnauditedContracts (params : Bytes) (target : Address) : Tx Error Unit :=
  Constitution.checkUnauditedContracts params target

/-- `_checkMaxLeverage`. -/
def checkMaxLeverage (adapters : Adapters) (r : Rule) (innerData : Bytes) : Tx Error Unit := do
  revertIf (r.adapter = 0) (.missingRequiredAdapter 0)
  Constitution.checkMaxLeverage (tryDecode adapters) r innerData

/-- The inline path of `_checkMaxTradeSize`. -/
def checkTransfer (innerData : Bytes) (max : ℕ) : Tx Error Unit :=
  if 68 ≤ innerData.length ∧ selector innerData = transferSelector then
    require (decodeUint256At innerData 36 ≤ max) (reason "MAX_TRADE_SIZE")
  else return

/-- `_checkMaxTradeSize`. -/
def checkMaxTradeSize (adapters : Adapters) (r : Rule) (value : ℕ) (innerData : Bytes) :
    Tx Error Unit := do
  let max ← decoded (decodeUint r.params)
  require (value ≤ max) (reason "MAX_TRADE_SIZE")
  checkAdapterSize (tryDecode adapters) r innerData max
  checkTransfer innerData max

/-- `_checkSubdelegationBound`. -/
def checkSubdelegationBound (adapters : Adapters) (r : Rule) (innerData : Bytes) :
    Tx Error Unit := do
  revertIf (r.adapter = 0) (.missingRequiredAdapter 4)
  Constitution.checkSubdelegationBound (tryDecode adapters) r innerData

/-- `_enforce`. -/
def enforce (adapters : Adapters) (r : Rule) (c : Execution) : Tx Error Unit :=
  if r.kind = 0 then checkMaxLeverage adapters r c.callData
  else if r.kind = 1 then checkMaxTradeSize adapters r c.value c.callData
  else if r.kind = 2 then checkVenueBlacklist r.params c.target
  else if r.kind = 3 then checkUnauditedContracts r.params c.target
  else if r.kind = 4 then checkSubdelegationBound adapters r c.callData
  else return

/-- `_decodeCall`. -/
def decodeCall (callData : Bytes) : Tx Error Execution := do
  revertIf (callData.length < 4) (.unsupportedOuterSelector [0, 0, 0, 0])
  let sel := slice callData 0 4
  revertIf (sel ≠ executeSelector) (.unsupportedOuterSelector sel)
  revertIf (callData.length < 4 + 32 * 3) (.unsupportedOuterSelector sel)
  decoded (decodeExecution (callData.drop 4))

/-- `validateUserOp`, of a user operation of `sender`. -/
def validateUserOp (adapters : Adapters) (registry : Registry.State) (s : State) (m : Msg)
    (sender : Address) (callData : Bytes) : Tx Error Unit := do
  let hash := s.constitutionOf sender
  revertIf (hash = 0) .notInstalled
  require (m.sender = s.entryPointOf sender ∨ m.sender = sender)
    "ConstitutionViolation:NOT_OWN_USEROP"
  let rules ← external (Registry.getConstitution registry hash)
  let c ← decodeCall callData
  rules.forM fun r => enforce adapters r c

end Validator
end Constitution
end Arcane
