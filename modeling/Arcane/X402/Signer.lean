import Arcane.X402.Types

/-!
# The TypeScript signer

`scripts/x402/signer.ts` and the amounts of `batch_client.ts`: decimal USDC amounts, the choice of
an `accepts[]` entry and of the EIP-712 domain, and the message that is signed for it. The
signature itself comes from `viem`; `signTransferWithAuthorization` is cut at the `await` on it
(`transferMessage`, then `paymentAuthorization`).
-/

namespace Arcane
namespace X402

open Text

section Amounts

/-- White space and line terminators of the language. -/
def jsSpace (c : CodePoint) : Bool :=
  c.val ∈ [9, 10, 11, 12, 13, 32, 160, 5760, 8232, 8233, 8239, 8287, 12288, 65279] ||
    (8192 ≤ c.val && c.val ≤ 8202)

/-- `[+-]?\d+`. -/
def signedInteger : Str → Option ℤ
  | [] => none
  | c :: t =>
    if c = ofChar '-' then (readNat t).map fun n : ℕ => -(n : ℤ)
    else if c = ofChar '+' then (readNat t).map Int.ofNat
    else (readNat (c :: t)).map Int.ofNat

def binVal (c : CodePoint) : Option ℕ := if c.val < 50 then digitVal c else none

def octVal (c : CodePoint) : Option ℕ := if c.val < 56 then digitVal c else none

/-- `0x`, `0o` and `0b` literals. -/
def radixInteger : Str → Option ℕ
  | z :: x :: t =>
    if z ≠ ofChar '0' then none
    else if x = ofChar 'x' ∨ x = ofChar 'X' then readDigits 16 hexVal t
    else if x = ofChar 'o' ∨ x = ofChar 'O' then readDigits 8 octVal t
    else if x = ofChar 'b' ∨ x = ofChar 'B' then readDigits 2 binVal t
    else none
  | _ => none

/-- `BigInt(s)`, which throws a `SyntaxError` on anything else. -/
def bigInt (s : Str) : Option ℤ :=
  let t := trim jsSpace s
  if t.isEmpty then some 0
  else match radixInteger t with
    | some n => some n
    | none => signedInteger t

def usdcDecimals : ℕ := 6

def invalidUsdcAmount (message : String) : X402Error := .error "INVALID_USDC_AMOUNT" message

/-- `usdcToBaseUnits`: the pattern `^-?\d+(?:\.\d+)?$`, read in units of `10^-6`. -/
def usdcToBaseUnits (amount : Str) : Except X402Error ℤ :=
  let trimmed := trim jsSpace amount
  let negative := trimmed.head? = some (ofChar '-')
  let abs := if negative then trimmed.tail else trimmed
  let whole := abs.takeWhile (· ≠ ofChar '.')
  let frac := (abs.dropWhile (· ≠ ofChar '.')).tail
  let padded := frac ++ List.replicate (usdcDecimals - frac.length) (ofChar '0')
  match readNat whole, readNat padded with
  | some w, some f =>
    if abs.contains (ofChar '.') ∧ frac.isEmpty then .error (invalidUsdcAmount "not a decimal")
    else if frac.length > usdcDecimals then
      .error (invalidUsdcAmount "more than 6 decimal places")
    else
      let units : ℤ := w * 10 ^ usdcDecimals + f
      .ok (if negative then -units else units)
  | _, _ => .error (invalidUsdcAmount "not a decimal")

end Amounts

/-- What the caller of `pickAccept` is ready to pay, and where. -/
structure Policy where
  network : Str
  asset : Option Str
  maxAmountBaseUnits : ℤ

section

variable (U : Unicode)

/-- The entry is not about the asset of the policy. An empty asset is none. -/
def Policy.otherAsset (policy : Policy) (entry : PaymentRequirements) : Bool :=
  match policy.asset with
  | some asset => !asset.isEmpty && U.lower entry.asset ≠ U.lower asset
  | none => false

/-- The loop of `pickAccept`: the first entry for the policy, which must not cost too much. -/
def pickAcceptFrom (policy : Policy) :
    List PaymentRequirements → Except X402Error PaymentRequirements
  | [] => .error (.noAcceptableRequirement "no accepts entry matched")
  | entry :: rest =>
    if entry.scheme ≠ lit "exact" then pickAcceptFrom policy rest
    else if entry.network ≠ policy.network then pickAcceptFrom policy rest
    else if policy.otherAsset U entry then pickAcceptFrom policy rest
    else match bigInt entry.maxAmountRequired with
      | none => .error .uncaught
      | some maxRequired =>
        if maxRequired > policy.maxAmountBaseUnits then
          .error (.amountExceeded maxRequired policy.maxAmountBaseUnits)
        else .ok entry

def pickAccept (accepts : List PaymentRequirements) (policy : Policy) :
    Except X402Error PaymentRequirements :=
  if accepts.isEmpty then .error (.noAcceptableRequirement "server returned empty accepts[]")
  else pickAcceptFrom U policy accepts

end

/-- The EIP-712 domain that is signed for. -/
structure ResolvedDomain where
  name : Str
  version : Str
  chainId : ℤ
  verifyingContract : Str
deriving DecidableEq

def usdcArcDomainName : Str := lit "USDC"

def usdcArcDomainVersion : Str := lit "2"

def gatewayBatchedDomainName : Str := lit "GatewayWalletBatched"

def gatewayBatchedDomainVersion : Str := lit "1"

def resolveDomain (requirements : PaymentRequirements) (chainId : ℤ) :
    Except X402Error ResolvedDomain :=
  let extra := requirements.extra
  if extra.name = some gatewayBatchedDomainName then
    match extra.verifyingContract with
    | some (c :: vc) => .ok
      { name := gatewayBatchedDomainName
        version := extra.version.getD gatewayBatchedDomainVersion
        chainId
        verifyingContract := c :: vc }
    | _ => .error (.signerUnusable
        "server advertised Gateway batching but omitted extra.verifyingContract")
  else .ok
    { name := extra.name.getD usdcArcDomainName
      version := extra.version.getD usdcArcDomainVersion
      chainId
      verifyingContract := requirements.asset }

/-- The arguments of `signTransferWithAuthorization`, with the time and the nonce it takes. -/
structure SignArgs where
  requirements : PaymentRequirements
  chainId : ℤ
  value : ℤ
  validForSeconds : ℤ
  nonce : Str
  now : ℤ
  expectedRecipient : Option Str
  maxAmountBaseUnits : Option ℤ

section

variable (U : Unicode)

/-- The recipient is not the pinned one. -/
def SignArgs.otherRecipient (args : SignArgs) : Bool :=
  match args.expectedRecipient with
  | some recipient => U.lower args.requirements.payTo ≠ U.lower recipient
  | none => false

/-- The cap on the quoted and on the signed amount. -/
def SignArgs.checkAmount (args : SignArgs) : Except X402Error Unit :=
  match args.maxAmountBaseUnits with
  | none => .ok ()
  | some cap =>
    match bigInt args.requirements.maxAmountRequired with
    | none => .error .uncaught
    | some required =>
      if required > cap then .error (.amountExceeded required cap)
      else if args.value > cap then .error (.amountExceeded args.value cap)
      else .ok ()

/-- `signTransferWithAuthorization` up to the signature: the domain and the message. -/
def transferMessage (address : Str) (args : SignArgs) :
    Except X402Error (ResolvedDomain × TransferWithAuthorization) :=
  if args.otherRecipient U then
    .error (.signerUnusable "server payTo does not match expected recipient")
  else do
    args.checkAmount
    let domain ← resolveDomain args.requirements args.chainId
    return (domain,
      { fromAddr := address
        toAddr := args.requirements.payTo
        value := args.value
        validAfter := args.now - 1
        validBefore := args.now + args.validForSeconds
        nonce := args.nonce })

/-- `signTransferWithAuthorization` from the signature on. -/
def paymentAuthorization (args : SignArgs) (domain : ResolvedDomain)
    (message : TransferWithAuthorization) (signature : Str) : PaymentAuthorization where
  authorization := message
  signature := signature
  network := args.requirements.network
  scheme := args.requirements.scheme
  verifyingContract := domain.verifyingContract
  chainId := domain.chainId
  domainName := domain.name
  domainVersion := domain.version
  payTo := args.requirements.payTo
  asset := args.requirements.asset
  resource := args.requirements.resource
  signedAt := args.now

end

end X402
end Arcane
