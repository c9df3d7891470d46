import Arcane.Lib.Text

/-!
# The records of the x402 scripts

`scripts/x402/types.ts`: the server's payment requirements, the signed EIP-3009 authorization, the
batch policies and the errors.
-/

namespace Arcane
namespace X402

open Text

/-- `TransferWithAuthorization`: the message that is signed. -/
structure TransferWithAuthorization where
  fromAddr : Str
  toAddr : Str
  value : ℤ
  validAfter : ℤ
  validBefore : ℤ
  nonce : Str
deriving DecidableEq

/-- `PaymentAuthorization`: the signed message with what it was signed for. -/
structure PaymentAuthorization where
  authorization : TransferWithAuthorization
  signature : Str
  network : Str
  scheme : Str
  verifyingContract : Str
  chainId : ℤ
  domainName : Str
  domainVersion : Str
  payTo : Str
  asset : Str
  resource : Str
  signedAt : ℤ
deriving DecidableEq

/-- The keys that the client reads of `extra`. -/
structure Extra where
  name : Option Str
  version : Option Str
  verifyingContract : Option Str
deriving DecidableEq

/-- `PaymentRequirements`: one entry of the server's `accepts[]`. -/
structure PaymentRequirements where
  scheme : Str
  network : Str
  maxAmountRequired : Str
  resource : Str
  description : Str
  mimeType : Str
  payTo : Str
  maxTimeoutSeconds : ℤ
  asset : Str
  extra : Extra
deriving DecidableEq

inductive BatchMode
  | immediate
  | manual
  | auto
deriving DecidableEq

/-- Why a batch is flushed. -/
inductive Reason
  | manual
  | size
  | age
  | shutdown
deriving DecidableEq

structure BatchedSettlement where
  items : List PaymentAuthorization
  totalValue : ℤ
  reason : Reason
  broadcast : Bool
  flushedAt : ℤ
deriving DecidableEq

/-- The classes derived from `X402Error`, with their `code` and what their texts are made of. -/
inductive X402Error
  /-- The base class. -/
  | error (code message : String)
  | amountExceeded (requested allowed : ℤ)
  | noAcceptableRequirement (reason : String)
  | serverRefused (status : ℕ)
  | gatewaySettlement (reason : String)
  | signerUnusable (reason : String)
  /-- A `TypeError` or a `SyntaxError` of the runtime, and what the transport raises. -/
  | uncaught
deriving DecidableEq

def X402Error.code : X402Error → Option String
  | .error code _ => some code
  | .amountExceeded _ _ => some "AMOUNT_EXCEEDED"
  | .noAcceptableRequirement _ => some "NO_ACCEPTABLE_REQUIREMENT"
  | .serverRefused _ => some "SERVER_REFUSED"
  | .gatewaySettlement _ => some "GATEWAY_SETTLEMENT_FAILED"
  | .signerUnusable _ => some "SIGNER_UNUSABLE"
  | .uncaught => none

end X402
end Arcane
