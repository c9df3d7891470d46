import Arcane.Constitution.Rules

/-!
# The constitution hook

`contracts/src/ConstitutionHook.sol`. Events, and what only they carry, are left out.
-/

namespace Arcane
namespace Constitution
namespace Hook

open Text Evm Abi

structure State where
  constitutionOf : Address → Bytes32

def State.initial : State := ⟨fun _ => 0⟩

def onInstall (registry : Registry.State) (s : State) (m : Msg) (data : Bytes) :
    Tx Error State := do
  revertIf (data.length ≠ 32) .invalidInstallData
  let hash ← decoded (bytes32At data 0)
  revertIf (registry.exist hash = false) .unknownConstitution
  revertIf (s.constitutionOf m.sender ≠ 0) .alreadyInstalled
  return ⟨Function.update s.constitutionOf m.sender hash⟩

def onUninstall (s : State) (m : Msg) : Tx Error State := do
  revertIf (s.constitutionOf m.sender = 0) .notInstalled
  return ⟨Function.update s.constitutionOf m.sender 0⟩

/-- `_tryDecode`. -/
def tryDecode (adapters : Adapters) : Address → Bytes → Tx Error Decoded :=
  Constitution.tryDecode adapters

/-- `_checkVenueBlacklist`. -/
def checkVenueBlacklist (params : Bytes) (target : Address) : Tx Error Unit :=
  Constitution.checkVenueBlacklist params target

/-- `_checkUnauditedContracts`. -/
def checkUnauditedContracts (params : Bytes) (target : Address) : Tx Error Unit :=
  Constitution.checkUnauditedContracts params target

/-- `_checkMaxLeverage`. -/
def checkMaxLeverage (adapters : Adapters) (r : Rule) (innerData : Bytes) : Tx Error Unit :=
  Constitution.checkMaxLeverage (tryDecode adapters) r innerData

/-- `_checkSubdelegationBound`. -/
def checkSubdelegationBound (adapters : Adapters) (r : Rule) (innerData : Bytes) :
    Tx Error Unit :=
  Constitution.checkSubdelegationBound (tryDecode adapters) r innerData

/-- The inline path of `_enforceMaxTradeSize`. -/
def checkTransfer (innerData : Bytes) (max : ℕ) : Tx Error Unit :=
  if 68 ≤ innerData.length ∧ slice innerData 0 4 = transferSelector then
    require (ofBytes (slice innerData 36 32) ≤ max) "ConstitutionViolation:MAX_TRADE_SIZE"
  else return

/-- `_enforceMaxTradeSize`. -/
def enforceMaxTradeSize (adapters : Adapters) (r : Rule) (value : ℕ) (innerData : Bytes)
    (max : ℕ) : Tx Error Unit := do
  require (value ≤ max) "ConstitutionViolation:MAX_TRADE_SIZE"
  checkAdapterSize (tryDecode adapters) r innerData max
  checkTransfer innerData max

/-- What `preCheck` hands to `postCheck`. -/
structure HookData where
  maxTradeSize : ℕ
  preBalance : ℕ
  hasMaxTradeSizeRule : Bool
  deriving DecidableEq

/-- The body of the loop of `preCheck`, with `maxTradeSize` and `hasMaxTradeSizeRule`. -/
def enforce (adapters : Adapters) (c : Execution) (acc : ℕ × Bool) (r : Rule) :
    Tx Error (ℕ × Bool) :=
  if r.kind = 1 then do
    let maxTradeSize ← decoded (decodeUint r.params)
    enforceMaxTradeSize adapters r c.value c.callData maxTradeSize
    return (maxTradeSize, true)
  else if r.kind = 2 then do
    checkVenueBlacklist r.params c.target
    return acc
  else if r.kind = 3 then do
    checkUnauditedContracts r.params c.target
    return acc
  else if r.kind = 0 then
    if r.adapter = 0 then return acc
    else do
      checkMaxLeverage adapters r c.callData
      return acc
  else if r.kind = 4 then
    if r.adapter = 0 then return acc
    else do
      checkSubdelegationBound adapters r c.callData
      return acc
  else return acc

/-- The packed call of a single execution. -/
def unpack (execData : Bytes) : Execution where
  target := ⟨BitVec.ofNat 160 (ofBytes (slice execData 0 20))⟩
  value := ofBytes (slice execData 20 32)
  callData := execData.drop 52

/-- `abi.decode(body, (bytes32, bytes))`. -/
def decodeFromExecutor (body : Bytes) : Option (Bytes32 × Bytes) := do
  let mode ← bytes32At body 0
  let executionCalldata ← (sizeAt body 32).bind (bytesAt body)
  return (mode, executionCalldata)

/-- `_decodeOuter`. -/
def decodeOuter (msgData outerSel : Bytes) : Tx Error Execution :=
  if outerSel = executeSelector then do
    revertIf (msgData.length < 4 + 32 * 3) (.unsupportedOuterSelector outerSel)
    decoded (decodeExecution (msgData.drop 4))
  else if outerSel = executeFromExecutorSelector then do
    revertIf (msgData.length < 4 + 32 * 4) (.unsupportedOuterSelector outerSel)
    let (_, execData) ← decoded (decodeFromExecutor (msgData.drop 4))
    revertIf (execData.length < 20 + 32) (.unsupportedOuterSelector outerSel)
    return unpack execData
  else .error (.custom (.unsupportedOuterSelector outerSel))

/-- `_balanceOf`, from what the token answers. -/
def balance (balanceOf : Address → Option ℕ) (account : Address) : Tx Error ℕ :=
  match balanceOf account with
  | some bal => .ok bal
  | none => .error (.custom .balanceQueryFailed)

/-- `preCheck`. -/
def preCheck (adapters : Adapters) (balanceOf : Address → Option ℕ) (registry : Registry.State)
    (s : State) (m : Msg) (msgData : Bytes) : Tx Error HookData := do
  let hash := s.constitutionOf m.sender
  revertIf (hash = 0) .notInstalled
  revertIf (msgData.length < 4) (.unsupportedOuterSelector [0, 0, 0, 0])
  let outerSel := slice msgData 0 4
  revertIf (outerSel ≠ executeSelector ∧ outerSel ≠ executeFromExecutorSelector)
    (.unsupportedOuterSelector outerSel)
  let rules ← external (Registry.getConstitution registry hash)
  let c ← decodeOuter msgData outerSel
  let (maxTradeSize, hasMaxTradeSizeRule) ← rules.foldlM (enforce adapters c) (0, false)
  let preBalance ← balance balanceOf m.sender
  return ⟨maxTradeSize, preBalance, hasMaxTradeSizeRule⟩

/-- `abi.encode(maxTradeSize, preBalance, hasMaxTradeSizeRule)`. -/
def HookData.encode (d : HookData) : Bytes :=
  word d.maxTradeSize ++ (word d.preBalance ++ word d.hasMaxTradeSizeRule.toNat)

/-- `abi.decode(hookData, (uint256, uint256, bool))`. -/
def decodeHookData (hookData : Bytes) : Option HookData := do
  let maxTradeSize ← wordAt hookData 0
  let preBalance ← wordAt hookData 32
  let hasRule ← boolAt hookData 64
  return ⟨maxTradeSize, preBalance, hasRule⟩

/-- `postCheck`. The event that `delta` is for is left out, the overflow of `delta` is not. -/
def postCheck (balanceOf : Address → Option ℕ) (s : State) (m : Msg) (hookData : Bytes) :
    Tx Error Unit := do
  revertIf (s.constitutionOf m.sender = 0) .notInstalled
  let d ← decoded (decodeHookData hookData)
  let postBalance ← balance balanceOf m.sender
  let _delta ← I256.sub (I256.cast postBalance) (I256.cast d.preBalance)
  if d.hasMaxTradeSizeRule = false then return
  else if postBalance < d.preBalance then
    require (d.preBalance - postBalance ≤ d.maxTradeSize) "ConstitutionViolation:POSTCHECK_OUTFLOW"
  else return

end Hook
end Constitution
end Arcane
