import Arcane.DarkPool.NonceStore
import Arcane.Lib.Python

/-!
# Payments of the dark pool

`agents/dark_pool.py` up to the request handlers: the `accepts[]` entries of a 402, the EIP-712
typed data, and the validation of a parsed `X-PAYMENT` header. A refusal is a 402 with its text; an
exception that nothing catches is `Failure.raised`.
-/

namespace Arcane
namespace DarkPool

open Text Python

/-- The arguments of `DarkPoolServer`, with the price in base units. -/
structure Config where
  priceUnits : ℤ
  paymentRecipient : Str
  chainId : ℤ
  usdcAddress : Str
  network : Str
  usdcName : Str
  usdcVersion : Str
  maxTimeoutSeconds : ℤ
  gatewayWalletAddress : Option Str
  gatewayDomainName : Str
  gatewayDomainVersion : Str

def x402Version : ℤ := 1

def defaultScheme : Str := lit "exact"

def zeroAddress : Str := lit "0x" ++ List.replicate 40 (ofChar '0')

/-- The order of the curve. -/
def secp256k1N : ℕ := 0xFFFFFFFFFFFFFFFFFFFFFFFFFFFFFFFEBAAEDCE6AF48A03BBFD25E8CD0364141

def secp256k1HalfN : ℕ := secp256k1N / 2

def valueUpperFactor : ℤ := 2

section Requirements

variable {F : Type} (cfg : Config) (resource : Str)

/-- `_PaymentRequirements.to_dict` with what the two kinds of entries have in common. -/
def requirementsDict (description : Str) (extra : List (Str × Json F)) : Json F :=
  .obj [(lit "scheme", .str defaultScheme),
    (lit "network", .str cfg.network),
    (lit "maxAmountRequired", .str (intText cfg.priceUnits)),
    (lit "resource", .str resource),
    (lit "description", .str description),
    (lit "mimeType", .str (lit "application/json")),
    (lit "payTo", .str cfg.paymentRecipient),
    (lit "maxTimeoutSeconds", .int cfg.maxTimeoutSeconds),
    (lit "asset", .str cfg.usdcAddress),
    (lit "extra", .obj extra)]

def paymentRequirements : Json F :=
  requirementsDict cfg resource (lit "RaBitQ dark pool query")
    [(lit "name", .str cfg.usdcName), (lit "version", .str cfg.usdcVersion)]

def gatewayPaymentRequirements : Option (Json F) :=
  cfg.gatewayWalletAddress.map fun wallet =>
    requirementsDict cfg resource (lit "RaBitQ dark pool query (Circle Gateway batched)")
      [(lit "name", .str cfg.gatewayDomainName), (lit "version", .str cfg.gatewayDomainVersion),
        (lit "verifyingContract", .str wallet)]

/-- `_all_accepts`. -/
def allAccepts : List (Json F) :=
  paymentRequirements cfg resource :: (gatewayPaymentRequirements cfg resource).toList

/-- The content of `_make_402`. -/
def make402 (error : Option Str) : Json F :=
  .obj ([(lit "x402Version", .int x402Version), (lit "accepts", .arr (allAccepts cfg resource))] ++
    error.toList.map fun e => (lit "error", .str e))

end Requirements

/-- The typed data of a `TransferWithAuthorization`: the domain and the message. -/
structure TypedData (F : Type) where
  name : Json F
  version : Json F
  chainId : ℤ
  verifyingContract : Str
  fromAddr : Str
  toAddr : Json F
  value : ℤ
  validAfter : ℤ
  validBefore : ℤ
  nonce : Str

/-- `build_typed_data` writes the nonce with its prefix. -/
def prefixed (nonceHex : Str) : Str :=
  if (lit "0x").isPrefixOf nonceHex then nonceHex else lit "0x" ++ nonceHex

/-- The part of `eth_account` that the server and its client use. -/
structure EthAccount (F : Type) where
  /-- The digest of `encode_typed_data`, which raises where the data does not have its types. -/
  encodeTypedData : TypedData F → Option Bytes
  /-- `Account.recover_message`. -/
  recoverMessage : Bytes → Str → Option Str
  recover_ascii : ∀ d s a, recoverMessage d s = some a → isAscii a

/-- Why a signature is not one of the typed data. -/
inductive SignatureError
  | length (n : ℕ)
  | notHex
  | zeroR
  | zeroS
  | highS
  /-- What `encode_typed_data` or `recover_message` raises. -/
  | account
  | zeroAddress
deriving DecidableEq

/-- Why a payment is refused. -/
inductive Refusal (F : Type)
  | malformedHeader
  | headerNotObject
  | unsupportedScheme (scheme : Option (Json F))
  | unsupportedNetwork (network : Option (Json F))
  | missingPayload
  | missingAuthorization
  | fieldsInvalid
  | zeroFrom
  | expired
  | notYetValid
  | wrongRecipient
  | insufficient (value : ℤ)
  | excessive (value : ℤ)
  | recoveryFailed (e : SignatureError)
  | signatureMismatch
  | nonceReplayed

/-- The interpreter and its libraries: `cause` is the text of the exception, or the `repr` of the
value, with which the text of a refusal ends. -/
structure Interpreter (F : Type) where
  unicode : Unicode
  truncate : F → ℤ
  /-- `x == 0.0`. -/
  isZero : F → Bool
  account : EthAccount F
  cause : Refusal F → Str

section Text

variable {F : Type} (I : Interpreter F) (cfg : Config)

def Refusal.text (r : Refusal F) : Str :=
  match r with
  | .malformedHeader => lit "malformed X-PAYMENT header: " ++ I.cause r
  | .headerNotObject => lit "X-PAYMENT must decode to a JSON object"
  | .unsupportedScheme _ => lit "unsupported scheme: " ++ I.cause r
  | .unsupportedNetwork _ => lit "unsupported network: " ++ I.cause r
  | .missingPayload => lit "missing payload"
  | .missingAuthorization => lit "payload missing authorization or signature"
  | .fieldsInvalid => lit "authorization fields invalid: " ++ I.cause r
  | .zeroFrom => lit "from address is zero"
  | .expired => lit "authorization expired"
  | .notYetValid => lit "authorization not yet valid"
  | .wrongRecipient => lit "wrong recipient"
  | .insufficient value =>
    lit "insufficient amount: got " ++ intText value ++ lit ", need " ++ intText cfg.priceUnits
  | .excessive value =>
    lit "excessive amount: got " ++ intText value ++ lit ", max " ++
      intText (cfg.priceUnits * valueUpperFactor)
  | .recoveryFailed e =>
    lit "signature recovery failed: " ++
      match e with
      | .length n =>
        lit "signature must be 65 bytes (130 hex chars), got " ++ intText n
      | .notHex => lit "signature is not valid hex: " ++ I.cause r
      | .zeroR => lit "signature r component is zero"
      | .zeroS => lit "signature s component is zero"
      | .highS => lit "signature has high-s (EIP-2 malleability)"
      | .account => I.cause r
      | .zeroAddress => lit "ecrecover returned zero address"
  | .signatureMismatch => lit "signature does not match from-address"
  | .nonceReplayed => lit "nonce replayed"

end Text

inductive Failure (F : Type)
  /-- A 402. -/
  | refused (why : Refusal F)
  /-- A 500. -/
  | raised

section Recovery

variable {F : Type} (I : Interpreter F)

/-- The checks of `recover_signer` on the signature. -/
def checkSignature (sigHexRaw : Str) : Except SignatureError Unit :=
  if sigHexRaw.length ≠ 130 then .error (.length sigHexRaw.length)
  else
    match fromHex sigHexRaw with
    | none => .error .notHex
    | some sig =>
      let r := ofBytes (sig.take 32)
      let s := ofBytes ((sig.drop 32).take 32)
      if r = 0 then .error .zeroR
      else if s = 0 then .error .zeroS
      else if s > secp256k1HalfN then .error .highS
      else .ok ()

def stripHexPrefix (s : Str) : Str :=
  if (lit "0x").isPrefixOf s ∨ (lit "0X").isPrefixOf s then s.drop 2 else s

/-- `recover_signer`. -/
def recoverSigner (typed : TypedData F) (signatureHex : Str) : Except SignatureError Str := do
  let sigHexRaw := stripHexPrefix signatureHex
  checkSignature sigHexRaw
  match (I.account.encodeTypedData typed).bind fun digest =>
      I.account.recoverMessage digest (lit "0x" ++ sigHexRaw) with
  | none => .error .account
  | some recovered =>
    if I.unicode.lower recovered = zeroAddress then .error .zeroAddress else .ok recovered

end Recovery

/-- An EIP-712 domain that the server tries. -/
structure CandidateDomain where
  verifyingContract : Str
  name : Str
  version : Str

def Config.candidateDomains (cfg : Config) : List CandidateDomain :=
  ⟨cfg.usdcAddress, cfg.usdcName, cfg.usdcVersion⟩ ::
    (cfg.gatewayWalletAddress.map fun wallet =>
      (⟨wallet, cfg.gatewayDomainName, cfg.gatewayDomainVersion⟩ : CandidateDomain)).toList

/-- The fields of an authorization. -/
structure Fields (F : Type) where
  fromAddr : Json F
  toAddr : Json F
  value : ℤ
  validAfter : ℤ
  validBefore : ℤ
  nonce : Json F

/-- What `_validate_payment` returns for a payment that it accepts, and the typed data whose signer
was recovered. -/
structure Valid (F : Type) where
  signer : Str
  nonce : Str
  validBefore : ℤ
  verifyingContract : Str
  typed : TypedData F

section Validation

variable {F : Type} (I : Interpreter F) (cfg : Config)

def field (auth : List (Str × Json F)) (key : String) : Except (Failure F) (Json F) :=
  match get auth key with
  | some v => .ok v
  | none => .error (.refused .fieldsInvalid)

def intField (auth : List (Str × Json F)) (key : String) : Except (Failure F) ℤ := do
  match intOf I.unicode I.truncate (← field auth key) with
  | .ok n => .ok n
  | .error .invalid => .error (.refused .fieldsInvalid)
  | .error .overflow => .error .raised

def authorizationFields (auth : List (Str × Json F)) : Except (Failure F) (Fields F) := do
  let fromAddr ← field auth "from"
  let toAddr ← field auth "to"
  let value ← intField I auth "value"
  let validAfter ← intField I auth "validAfter"
  let validBefore ← intField I auth "validBefore"
  let nonce ← field auth "nonce"
  return { fromAddr, toAddr, value, validAfter, validBefore, nonce }

/-- The authorization and the signature of a payment for this server. -/
def payloadParts (payment : List (Str × Json F)) :
    Except (Failure F) (List (Str × Json F) × Str) :=
  let scheme := get payment "scheme"
  let network := get payment "network"
  match scheme, network, get payment "payload" with
  | some (.str s), some (.str n), payload =>
    if s ≠ defaultScheme then .error (.refused (.unsupportedScheme scheme))
    else if n ≠ cfg.network then .error (.refused (.unsupportedNetwork network))
    else
      match payload with
      | some (.obj payload) =>
        match get payload "authorization", get payload "signature" with
        | some (.obj auth), some (.str sig) => .ok (auth, sig)
        | _, _ => .error (.refused .missingAuthorization)
      | _ => .error (.refused .missingPayload)
  | some (.str s), _, _ =>
    if s ≠ defaultScheme then .error (.refused (.unsupportedScheme scheme))
    else .error (.refused (.unsupportedNetwork network))
  | _, _, _ => .error (.refused (.unsupportedScheme scheme))

/-- The checks on the times and the amount. -/
def checkTerms (now : ℤ) (f : Fields F) (toAddr : Str) : Except (Refusal F) Unit :=
  if f.validBefore ≤ now then .error .expired
  else if f.validAfter > now + 5 then .error .notYetValid
  else if I.unicode.lower toAddr ≠ I.unicode.lower cfg.paymentRecipient then .error .wrongRecipient
  else if f.value < cfg.priceUnits then .error (.insufficient f.value)
  else if f.value > cfg.priceUnits * valueUpperFactor then .error (.excessive f.value)
  else .ok ()

/-- `build_typed_data`. -/
def buildTypedData (fromAddr : Str) (toAddr : Json F) (value validAfter validBefore : ℤ)
    (nonceHex : Str) (chainId : ℤ) (verifyingContract : Str) (name version : Json F) :
    TypedData F where
  name := name
  version := version
  chainId := chainId
  verifyingContract := verifyingContract
  fromAddr := fromAddr
  toAddr := toAddr
  value := value
  validAfter := validAfter
  validBefore := validBefore
  nonce := prefixed nonceHex

/-- The loop over the candidate domains, after the last error. -/
def recoverFrom (typed : CandidateDomain → TypedData F) (sig fromAddr : Str) :
    Option SignatureError → List CandidateDomain → Except (Refusal F) (Str × CandidateDomain)
  | some e, [] => .error (.recoveryFailed e)
  | none, [] => .error .signatureMismatch
  | last, d :: ds =>
    match recoverSigner I (typed d) sig with
    | .error e => recoverFrom typed sig fromAddr (some e) ds
    | .ok candidate =>
      if I.unicode.lower candidate = I.unicode.lower fromAddr then .ok (candidate, d)
      else recoverFrom typed sig fromAddr last ds

/-- `_validate_payment` up to the look into the nonce store. -/
def validateSignature (now : ℤ) (payment : List (Str × Json F)) :
    Except (Failure F) (Valid F) := do
  let (auth, sig) ← payloadParts cfg payment
  let f ← authorizationFields I auth
  match f.fromAddr with
  | .str fromAddr =>
    if I.unicode.lower fromAddr = zeroAddress then .error (.refused .zeroFrom)
    else
      -- `to_addr.lower()` comes after the checks on the times.
      match f.toAddr with
      | .str toAddr => do
        (checkTerms I cfg now f toAddr).mapError .refused
        match f.nonce with
        | .str nonceHex => do
          let typed := fun d : CandidateDomain =>
            buildTypedData fromAddr (.str toAddr) f.value f.validAfter f.validBefore nonceHex
              cfg.chainId d.verifyingContract (.str d.name) (.str d.version)
          let (recovered, domain) ←
            (recoverFrom I typed sig fromAddr none cfg.candidateDomains).mapError .refused
          return { signer := I.unicode.lower recovered
                   nonce := I.unicode.lower nonceHex
                   validBefore := f.validBefore
                   verifyingContract := domain.verifyingContract
                   typed := typed domain }
        | _ => .error .raised
      | _ =>
        if f.validBefore ≤ now then .error (.refused .expired)
        else if f.validAfter > now + 5 then .error (.refused .notYetValid)
        else .error .raised
  | _ => .error (.refused .zeroFrom)

/-- The row of a payment in the nonce store. -/
def Valid.key (v : Valid F) : NonceKey :=
  nonceKey I.unicode v.signer v.nonce cfg.chainId v.verifyingContract

/-- `_validate_payment`. -/
def validatePayment (now : ℤ) (store : NonceStore) (payment : List (Str × Json F)) :
    Except (Failure F) (Valid F) := do
  let v ← validateSignature I cfg now payment
  match store.has (v.key I cfg) with
  | none => .error .raised
  | some true => .error (.refused .nonceReplayed)
  | some false => .ok v

/-- `_commit_nonce`: the store, or the refusal. -/
def commitNonce (store : NonceStore) (v : Valid F) : Except (Failure F) NonceStore :=
  match store.has (v.key I cfg) with
  | none => .error .raised
  | some true => .error (.refused .nonceReplayed)
  | some false =>
    match store.add (v.key I cfg) v.validBefore with
    | none => .error .raised
    | some store => .ok store

/-- The end of `_parse_payment_header`, after what was decoded. -/
def headerObject : Option (Json F) → Except (Refusal F) (List (Str × Json F))
  | none => .error .malformedHeader
  | some (.obj members) => .ok members
  | some _ => .error .headerNotObject

/-- `_parse_payment_header`. -/
def parsePaymentHeader [Json.FloatText F] (raw : Str) : Except (Refusal F) (List (Str × Json F)) :=
  headerObject (loadsBase64 raw)

end Validation

end DarkPool
end Arcane
