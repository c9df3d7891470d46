import Arcane.Constitution.Rules
import Arcane.Lib.LittleEndian

/-!
# The adapters

`contracts/src/adapters`: the decoders that the rules ask about the calldata of a call, each under
the name of its contract, and what a call of `decode` answers.
-/

namespace Arcane
namespace Constitution
namespace Adapter

open Text Evm Abi

/-- How `decode` reverts. -/
inductive Error where
  | notApplicable (selector : Bytes)
  | malformed
  /-- The ABI decoder reverts; there is no revert data. -/
  | undecodable
  deriving DecidableEq

/-- The revert data. The last two kinds of revert are none of an adapter. -/
def revertData : Revert Error → Bytes
  | .custom (.notApplicable selector) => notApplicable ++ (selector ++ List.replicate 28 0)
  | .custom .malformed => [0x07, 0xb6, 0xad, 0x3f]
  | .custom .undecodable => []
  | .arithmetic => [0x4e, 0x48, 0x7b, 0x71] ++ word 0x11
  | .reason _ => []
  | .external => []

/-- What the caller of `decode` gets. -/
def answer : Tx Error Decoded → Answer
  | .ok dec => .decoded dec
  | .error r => .reverted (revertData r)

/-- What `abi.decode` gives. -/
def decodedOr {α : Type} : Option α → Tx Error α
  | some a => .ok a
  | none => .error (.custom .undecodable)

/-- The `uint8` at position `i`. -/
def uint8At (b : Bytes) (i : ℕ) : Option UInt8 :=
  (wordAt b i).bind fun w => if w < 2 ^ 8 then some (UInt8.ofNat w) else none

/-! ## Drift -/

namespace Drift

/-- `DISCRIMINATOR_FULL`. -/
def discriminatorFull : Bytes := [0x45, 0xa1, 0x5d, 0xca, 0x78, 0x7e, 0x4c, 0xb9]

/-- `BASE_PRECISION`. -/
def basePrecision : ℕ := 10 ^ 9

/-- `MIN_LEN`. -/
def minLen : ℕ := 31

/-- `DRIFT_PROGRAM_ID_HINT`: the last 20 bytes of the hash of the program's name. -/
def driftProgramIdHint : Address := 0x7c94e7639c06b814b3e1cd0249e11c22697ffc04

/-- `_reverseU64`. -/
def reverseU64 (x : BitVec 64) : BitVec 64 :=
  ((x &&& 0xff00000000000000) >>> 56) |||
  ((x &&& 0x00ff000000000000) >>> 40) |||
  ((x &&& 0x0000ff0000000000) >>> 24) |||
  ((x &&& 0x000000ff00000000) >>> 8) |||
  ((x &&& 0x00000000ff000000) <<< 8) |||
  ((x &&& 0x0000000000ff0000) <<< 24) |||
  ((x &&& 0x000000000000ff00) <<< 40) |||
  ((x &&& 0x00000000000000ff) <<< 56)

/-- `_readU64LE`. -/
def readU64LE (calldata : Bytes) (offset : ℕ) : ℕ :=
  let be := (calldataload calldata offset >>> 192).setWidth 64
  (reverseU64 be).toNat

/-- `_readU16LE`. -/
def readU16LE (calldata : Bytes) (offset : ℕ) : BitVec 16 :=
  let be := (calldataload calldata offset >>> 240).setWidth 16
  (be <<< 8) ||| (be >>> 8)

/-- `_readBool`. -/
def readBool (calldata : Bytes) (offset : ℕ) : Bool :=
  (calldataload calldata offset >>> 248).setWidth 8 != 0

/-- `decode`. The reads go on into what stands behind `data` in the calldata. -/
def decode (data behind : Bytes) : Tx Error Decoded := do
  revertIf (data.length < minLen) .malformed
  let disc := slice data 0 8
  revertIf (disc ≠ discriminatorFull) (.notApplicable (disc.take 4))
  let baseAmount := readU64LE (data ++ behind) 12
  let price := readU64LE (data ++ behind) 20
  let marketIndex := readU16LE (data ++ behind) 28
  let reduceOnly := readBool (data ++ behind) 30
  let sizeUsdc := baseAmount * price % 2 ^ 256 / basePrecision
  return {
    protocolTarget := driftProgramIdHint
    sizeUsdc := sizeUsdc
    leverageBps := 0
    market := ⟨marketIndex.setWidth 160⟩
    isReduceOnly := reduceOnly }

end Drift

/-! ## GMX V2 -/

namespace GmxV2

structure CreateOrderParamsAddresses where
  receiver : Address
  cancellationReceiver : Address
  callbackContract : Address
  uiFeeReceiver : Address
  market : Address
  initialCollateralToken : Address
  swapPath : List Address

structure CreateOrderParamsNumbers where
  sizeDeltaUsd : ℕ
  initialCollateralDeltaAmount : ℕ
  triggerPrice : ℕ
  acceptablePrice : ℕ
  executionFee : ℕ
  callbackGasLimit : ℕ
  minOutputAmount : ℕ
  validFromTime : ℕ

structure CreateOrderParams where
  addresses : CreateOrderParamsAddresses
  numbers : CreateOrderParamsNumbers
  orderType : UInt8
  decreasePositionSwapType : UInt8
  isLong : Bool
  shouldUnwrapNativeToken : Bool
  autoCancel : Bool
  referralCode : Bytes32
  dataList : List Bytes32

/-- `USD_TO_USDC`. -/
def usdToUsdc : ℕ := 10 ^ 24

/-- `GMX_V2_EXCHANGE_ROUTER`. -/
def gmxV2ExchangeRouter : Address := 0x7c68c7866a64fa2160f78eeae12217ffbf871fa8

/-- `CREATE_ORDER_SELECTOR`. -/
def createOrderSelector : Bytes := [0xf5, 0x9c, 0x48, 0xeb]

/-- The addresses at position `i`. -/
def addressesAt (b : Bytes) (i : ℕ) : Option CreateOrderParamsAddresses := do
  let receiver ← addressAt b i
  let cancellationReceiver ← addressAt b (i + 32)
  let callbackContract ← addressAt b (i + 64)
  let uiFeeReceiver ← addressAt b (i + 96)
  let market ← addressAt b (i + 128)
  let initialCollateralToken ← addressAt b (i + 160)
  let swapPath ← (sizeAt b (i + 192)).bind fun o => arrayAt (fun _ j => addressAt b j) b (i + o)
  return {
    receiver, cancellationReceiver, callbackContract, uiFeeReceiver, market,
    initialCollateralToken, swapPath }

/-- The numbers at position `i`. -/
def numbersAt (b : Bytes) (i : ℕ) : Option CreateOrderParamsNumbers := do
  let sizeDeltaUsd ← wordAt b i
  let initialCollateralDeltaAmount ← wordAt b (i + 32)
  let triggerPrice ← wordAt b (i + 64)
  let acceptablePrice ← wordAt b (i + 96)
  let executionFee ← wordAt b (i + 128)
  let callbackGasLimit ← wordAt b (i + 160)
  let minOutputAmount ← wordAt b (i + 192)
  let validFromTime ← wordAt b (i + 224)
  return {
    sizeDeltaUsd, initialCollateralDeltaAmount, triggerPrice, acceptablePrice, executionFee,
    callbackGasLimit, minOutputAmount, validFromTime }

/-- The order at position `i`. -/
def paramsAt (b : Bytes) (i : ℕ) : Option CreateOrderParams := do
  let addresses ← (sizeAt b i).bind fun o => addressesAt b (i + o)
  let numbers ← numbersAt b (i + 32)
  let orderType ← uint8At b (i + 288)
  let decreasePositionSwapType ← uint8At b (i + 320)
  let isLong ← boolAt b (i + 352)
  let shouldUnwrapNativeToken ← boolAt b (i + 384)
  let autoCancel ← boolAt b (i + 416)
  let referralCode ← bytes32At b (i + 448)
  let dataList ← (sizeAt b (i + 480)).bind fun o => arrayAt (fun _ j => bytes32At b j) b (i + o)
  return {
    addresses, numbers, orderType, decreasePositionSwapType, isLong, shouldUnwrapNativeToken,
    autoCancel, referralCode, dataList }

/-- `abi.decode(body, (CreateOrderParams))`. -/
def decodeParams (body : Bytes) : Option CreateOrderParams := (sizeAt body 0).bind (paramsAt body)

/-- The leverage estimate. -/
def leverageBps (sizeUsdc collateral : ℕ) : Tx Error ℕ :=
  if 0 < collateral then do
    let scaled ← U256.mul sizeUsdc 10000
    return scaled / collateral
  else return 0

/-- `decode`. -/
def decode (data : Bytes) : Tx Error Decoded := do
  revertIf (data.length < 4) (.notApplicable [0, 0, 0, 0])
  let sel := slice data 0 4
  revertIf (sel ≠ createOrderSelector) (.notApplicable sel)
  revertIf (data.length < 4 + 32) .malformed
  let p ← decodedOr (decodeParams (data.drop 4))
  let sizeUsdc := p.numbers.sizeDeltaUsd / usdToUsdc
  let leverage ← leverageBps sizeUsdc p.numbers.initialCollateralDeltaAmount
  return {
    protocolTarget := gmxV2ExchangeRouter
    sizeUsdc := sizeUsdc
    leverageBps := leverage
    market := p.addresses.market
    isReduceOnly := 4 ≤ p.orderType && p.orderType ≤ 6 }

end GmxV2

/-! ## Permit2 -/

namespace Permit2

structure TokenPermissions where
  token : Address
  amount : ℕ

structure PermitTransferFrom where
  permitted : TokenPermissions
  nonce : ℕ
  deadline : ℕ

structure SignatureTransferDetails where
  /-- `to`. -/
  recipient : Address
  requestedAmount : ℕ

/-- `PERMIT2`. -/
def permit2 : Address := 0x000000000022d473030f116ddee9f6b43ac78ba3

/-- `PERMIT_TRANSFER_FROM_SELECTOR`. -/
def permitTransferFromSelector : Bytes := [0x30, 0xf2, 0x8b, 0x7a]

/-- `abi.decode(body, (PermitTransferFrom, SignatureTransferDetails, address, bytes))`; the last two
are checked and dropped. -/
def decodeParams (body : Bytes) : Option (PermitTransferFrom × SignatureTransferDetails) := do
  let token ← addressAt body 0
  let amount ← wordAt body 32
  let nonce ← wordAt body 64
  let deadline ← wordAt body 96
  let recipient ← addressAt body 128
  let requestedAmount ← wordAt body 160
  let _owner ← addressAt body 192
  let _signature ← (sizeAt body 224).bind (bytesAt body)
  return (⟨⟨token, amount⟩, nonce, deadline⟩, ⟨recipient, requestedAmount⟩)

/-- `decode`. -/
def decode (data : Bytes) : Tx Error Decoded := do
  revertIf (data.length < 4) (.notApplicable [0, 0, 0, 0])
  let sel := slice data 0 4
  revertIf (sel ≠ permitTransferFromSelector) (.notApplicable sel)
  revertIf (data.length < 4 + 32) .malformed
  let (permit, details) ← decodedOr (decodeParams (data.drop 4))
  let amount :=
    if details.requestedAmount = 0 then permit.permitted.amount else details.requestedAmount
  return {
    protocolTarget := permit2
    sizeUsdc := amount
    leverageBps := 0
    market := permit.permitted.token
    isReduceOnly := false }

end Permit2

/-! ## The contracts -/

/-- The adapters of the repository. -/
inductive Kind where
  | drift
  | gmxV2
  | permit2
  deriving DecidableEq

/-- What calldata of the adapter's own begins with. -/
def Kind.mark : Kind → Bytes
  | .drift => Drift.discriminatorFull
  | .gmxV2 => GmxV2.createOrderSelector
  | .permit2 => Permit2.permitTransferFromSelector

/-- `decode`, called with the ABI encoding of `data`. -/
def Kind.decode : Kind → Bytes → Tx Error Decoded
  | .drift, data => Drift.decode data (padding data.length)
  | .gmxV2, data => GmxV2.decode data
  | .permit2, data => Permit2.decode data

end Adapter

/-- The contract of the rule's adapter is one of the repository's. -/
structure Rule.Uses (adapters : Adapters) (r : Rule) (kind : Adapter.Kind) : Prop where
  adapter_ne : r.adapter ≠ 0
  answer : ∀ data, adapters r.adapter data = Adapter.answer (kind.decode data)

end Constitution
end Arcane
