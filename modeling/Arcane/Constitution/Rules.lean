import Arcane.Constitution.Registry

/-!
# The rules

What the three modules of the constitution have in common: the calls they judge, the adapters, and
the checks that each of them writes out in the same way. Each module has these under its own name.
-/

namespace Arcane
namespace Constitution

open Text Evm Abi

/-- The errors of the three modules. -/
inductive Error where
  | invalidInstallData
  | unknownConstitution
  | notInstalled
  | alreadyInstalled
  | notAuthorized
  | unsupportedOuterSelector (selector : Bytes)
  | missingRequiredAdapter (kind : UInt8)
  | balanceQueryFailed
  /-- The ABI decoder reverts, with no error of its own. -/
  | malformed
  /-- The revert data of an adapter. -/
  | raised (err : Bytes)
  deriving DecidableEq

/-- A call that an account makes. -/
structure Execution where
  target : Address
  value : ℕ
  callData : Bytes
  deriving DecidableEq

/-- `IRuleAdapter.Decoded`. -/
structure Decoded where
  protocolTarget : Address
  sizeUsdc : ℕ
  leverageBps : ℕ
  market : Address
  isReduceOnly : Bool

instance : Inhabited Decoded := ⟨0, 0, 0, 0, false⟩

/-- What a call of `decode` gives. -/
inductive Answer where
  | decoded (dec : Decoded)
  | reverted (err : Bytes)
  /-- No contract is there, or it returns something else. -/
  | invalid

/-- The adapters, as functions of the calldata that they are asked about. -/
abbrev Adapters := Address → Bytes → Answer

/-- What `abi.decode` gives. -/
def decoded {α : Type} : Option α → Tx Error α
  | some a => .ok a
  | none => .error (.custom .malformed)

/-- `NotApplicable.selector`. -/
def notApplicable : Bytes := [0x47, 0x51, 0x96, 0xff]

/-- `EXECUTE_SELECTOR`. -/
def executeSelector : Bytes := [0xb6, 0x1d, 0x27, 0xf6]

/-- `EXECUTE_FROM_EXECUTOR_SELECTOR`. -/
def executeFromExecutorSelector : Bytes := [0xd6, 0x91, 0xc9, 0x64]

/-- `ERC20_TRANSFER_SELECTOR`. -/
def transferSelector : Bytes := [0xa9, 0x05, 0x9c, 0xbb]

/-- `abi.decode(body, (address, uint256, bytes))`. -/
def decodeExecution (body : Bytes) : Option Execution := do
  let target ← addressAt body 0
  let value ← wordAt body 32
  let callData ← (sizeAt body 64).bind (bytesAt body)
  return ⟨target, value, callData⟩

/-- `abi.decode(params, (address[]))`. -/
def decodeAddresses (params : Bytes) : Option (List Address) :=
  (sizeAt params 0).bind (arrayAt (fun _ j => addressAt params j) params)

/-- `abi.decode(params, (uint256))`. -/
def decodeUint (params : Bytes) : Option ℕ := wordAt params 0

/-- `_tryDecode`. -/
def tryDecode (adapters : Adapters) (adapter : Address) (innerData : Bytes) : Tx Error Decoded :=
  match adapters adapter innerData with
  | .decoded dec => .ok dec
  | .reverted err =>
    if 4 ≤ err.length ∧ err.take 4 = notApplicable then .ok default
    else .error (.custom (.raised err))
  | .invalid => .error .external

/-- `_checkVenueBlacklist`. -/
def checkVenueBlacklist (params : Bytes) (target : Address) : Tx Error Unit := do
  let blacklist ← decoded (decodeAddresses params)
  require (target ∉ blacklist) "ConstitutionViolation:VENUE_BLACKLIST"

/-- `_checkUnauditedContracts`. -/
def checkUnauditedContracts (params : Bytes) (target : Address) : Tx Error Unit := do
  let whitelist ← decoded (decodeAddresses params)
  require (whitelist = [] ∨ target ∈ whitelist) "ConstitutionViolation:NO_UNAUDITED_CONTRACTS"

section

variable (tryDecode : Address → Bytes → Tx Error Decoded)

/-- What `_checkMaxLeverage` does with an adapter. -/
def checkMaxLeverage (r : Rule) (innerData : Bytes) : Tx Error Unit := do
  let dec ← tryDecode r.adapter innerData
  if dec.leverageBps = 0 then return
  else do
    let maxBps ← decoded (decodeUint r.params)
    require (dec.leverageBps ≤ maxBps) "ConstitutionViolation:MAX_LEVERAGE"

/-- What `_checkSubdelegationBound` does with an adapter. -/
def checkSubdelegationBound (r : Rule) (innerData : Bytes) : Tx Error Unit := do
  let dec ← tryDecode r.adapter innerData
  if dec.sizeUsdc = 0 then return
  else do
    let max ← decoded (decodeUint r.params)
    require (dec.sizeUsdc ≤ max) "ConstitutionViolation:SUBDELEGATION_BOUND"

/-- The size that an adapter reads is at most `max`. -/
def checkAdapterSize (r : Rule) (innerData : Bytes) (max : ℕ) : Tx Error Unit :=
  if r.adapter = 0 then return
  else do
    let dec ← tryDecode r.adapter innerData
    require (dec.sizeUsdc ≤ max) "ConstitutionViolation:MAX_TRADE_SIZE"

end

end Constitution
end Arcane
