import Arcane.DarkPool.Payment

/-!
# The Python client

`agents/x402_client.py` from the body of the server's 402 to the `X-PAYMENT` header:
`_normalise_accept`, `_pick_accept` and `_build_payment_header`.

`answerChallenge_le`: whatever the 402 offers, the client signs for no more than the expected price,
and only for the recipient that its caller has pinned.
-/

namespace Arcane
namespace DarkPool

open Text Python

/-- Why nothing is signed: an `X402Error`, or any other exception. -/
inductive ClientError
  | noAccepts
  | recipientMismatch
  | noRequirement
  | raised
deriving DecidableEq

/-- An account that signs digests; the signature is a text of hexadecimal digits. -/
structure Signer where
  address : Str
  sign : Bytes → Str

/-- What the caller of the client expects of the server. -/
structure Expectation where
  network : Str
  assetAddress : Str
  chainId : ℤ
  expectedPriceUnits : ℤ
  expectedRecipient : Option Str

/-- The text of an `X402Error`. -/
def ClientError.text (x : Expectation) : ClientError → Option Str
  | .noAccepts => some (lit "402 had no accepts array")
  | .recipientMismatch =>
    some (lit "server pay_to did not match expected recipient " ++ x.expectedRecipient.getD [])
  | .noRequirement =>
    some (lit "no acceptable payment requirement: no entry matched " ++
      lit "scheme/network/asset and stayed at or under expected price " ++
      intText x.expectedPriceUnits ++ lit " base units")
  | .raised => none

/-- What `_normalise_accept` returns. -/
structure Accept (F : Type) where
  scheme : Json F
  network : Json F
  maxAmountRequired : ℤ
  payTo : Json F
  asset : Json F
  maxTimeoutSeconds : ℤ
  extra : Json F
  resource : Json F

/-- `json.dumps` without arguments. -/
def dumpsStyle : Json.Style where
  escapes c := 126 < c.val
  spaced := true
  sortKeys := false

section

variable {F : Type} (I : Interpreter F) (x : Expectation)

/-- `int(entry.get(key, default))`. -/
def entryInt (members : List (Str × Json F)) (key : String) (default : ℤ) :
    Except ClientError ℤ :=
  (intOf I.unicode I.truncate ((get members key).getD (.int default))).mapError fun _ => .raised

/-- `entry.get(key)`, with `None` as `null`. -/
def entryValue (members : List (Str × Json F)) (key : String) : Json F :=
  (get members key).getD .null

def normaliseAccept (entry : Json F) : Except ClientError (Accept F) :=
  match entry with
  | .obj members => do
    let maxAmountRequired ← entryInt I members "maxAmountRequired" 0
    let maxTimeoutSeconds ← entryInt I members "maxTimeoutSeconds" 60
    let extra := entryValue members "extra"
    return {
      scheme := entryValue members "scheme"
      network := entryValue members "network"
      maxAmountRequired
      payTo := entryValue members "payTo"
      asset := entryValue members "asset"
      maxTimeoutSeconds
      extra := if truthy I.isZero extra then extra else .obj []
      resource := entryValue members "resource" }
  | _ => .error .raised

/-- `v == s`. -/
def isText (v : Json F) (s : Str) : Bool :=
  match v with
  | .str t => t = s
  | _ => false

/-- `(v or "").lower()`. -/
def loweredOr (v : Json F) : Except ClientError Str :=
  if truthy I.isZero v then
    match v with
    | .str s => .ok (I.unicode.lower s)
    | _ => .error .raised
  else .ok []

/-- `recipient_lc`. -/
def Expectation.recipient : Option Str :=
  (x.expectedRecipient.filter (!·.isEmpty)).map I.unicode.lower

/-- The recipient of an entry is not the pinned one. -/
def otherRecipient (a : Accept F) : Except ClientError Bool :=
  match x.recipient I with
  | none => .ok false
  | some recipient => do return (← loweredOr I a.payTo) ≠ recipient

/-- The loop of `_pick_accept`; `matched` is `matched_amount_ok`. -/
def pickAcceptFrom (matched : Bool) : List (Json F) → Except ClientError (Accept F)
  | [] =>
    .error (if (x.recipient I).isSome && matched then .recipientMismatch else .noRequirement)
  | raw :: rest => do
    let a ← normaliseAccept I raw
    if !isText a.scheme defaultScheme then pickAcceptFrom matched rest
    else if !isText a.network x.network then pickAcceptFrom matched rest
    else if (← loweredOr I a.asset) ≠ I.unicode.lower x.assetAddress then
      pickAcceptFrom matched rest
    else if a.maxAmountRequired > x.expectedPriceUnits then pickAcceptFrom matched rest
    else if ← otherRecipient I x a then pickAcceptFrom true rest
    else return a

def pickAccept (accepts : List (Json F)) : Except ClientError (Accept F) :=
  pickAcceptFrom I x false accepts

/-- The content of `X-PAYMENT`. -/
def paymentContent (scheme network signature fromAddr : Str) (toAddr : Json F)
    (value validAfter validBefore : ℤ) (nonce : Str) : List (Str × Json F) :=
  [(lit "x402Version", .int x402Version), (lit "scheme", .str scheme),
    (lit "network", .str network),
    (lit "payload", .obj [(lit "signature", .str signature),
      (lit "authorization", .obj [(lit "from", .str fromAddr), (lit "to", toAddr),
        (lit "value", .str (intText value)), (lit "validAfter", .str (intText validAfter)),
        (lit "validBefore", .str (intText validBefore)), (lit "nonce", .str nonce)])])]

/-- `"0x" + secrets.token_hex(32)`. -/
def nonceHex (token : Bytes) : Str := lit "0x" ++ hex token

/-- The typed data that `_build_payment_header` signs at the time `now`. -/
def clientTypedData (signer : Signer) (a : Accept F) (now : ℤ) (token : Bytes) :
    Except ClientError (TypedData F) :=
  match a.extra with
  | .obj extra =>
    .ok (buildTypedData signer.address a.payTo a.maxAmountRequired (now - 1)
      (now + a.maxTimeoutSeconds) (nonceHex token) x.chainId x.assetAddress
      ((get extra "name").getD (.str (lit "USDC"))) ((get extra "version").getD (.str (lit "2"))))
  | _ => .error .raised

variable [Json.FloatText F]

/-- `base64.b64encode(json.dumps(payload).encode()).decode()`. -/
def dumpsBase64 (v : Json F) : Except ClientError Str :=
  match utf8 (Json.render dumpsStyle v) with
  | some b => .ok (Base64.encode b)
  | none => .error .raised

/-- `_build_payment_header`: what was signed, and the header. -/
def buildPaymentHeader (signer : Signer) (a : Accept F) (now : ℤ) (token : Bytes) :
    Except ClientError (TypedData F × Str) := do
  let typed ← clientTypedData x signer a now token
  match I.account.encodeTypedData typed with
  | none => .error .raised
  | some digest =>
    let header ← dumpsBase64 (.obj (paymentContent defaultScheme x.network
      (signer.sign digest) signer.address a.payTo a.maxAmountRequired (now - 1)
      (now + a.maxTimeoutSeconds) (nonceHex token)))
    return (typed, header)

/-- `x402_pay_and_post` from the content of the 402 to the second request. -/
def answerChallenge (signer : Signer) (challenge : Json F) (now : ℤ) (token : Bytes) :
    Except ClientError (TypedData F × Str) :=
  match challenge with
  | .obj members =>
    let accepts := (get members "accepts").getD .null
    if !truthy I.isZero accepts then .error .noAccepts
    else
      match accepts with
      | .arr accepts => do buildPaymentHeader I x signer (← pickAccept I x accepts) now token
      | _ => .error .raised
  | _ => .error .raised

end

section Soundness

variable {F : Type} {I : Interpreter F} {x : Expectation} {a : Accept F}

/-- What the client has checked of an entry before it signs. -/
structure Accept.Fits (I : Interpreter F) (x : Expectation) (a : Accept F) : Prop where
  scheme : isText a.scheme defaultScheme = true
  network : isText a.network x.network = true
  asset : loweredOr I a.asset = .ok (I.unicode.lower x.assetAddress)
  amount : a.maxAmountRequired ≤ x.expectedPriceUnits
  recipient : otherRecipient I x a = .ok false

/-- The picked entry is one of the list, and fits. -/
theorem pickAcceptFrom_eq_ok {matched : Bool} {accepts : List (Json F)}
    (h : pickAcceptFrom I x matched accepts = .ok a) :
    a.Fits I x ∧ ∃ raw ∈ accepts, normaliseAccept I raw = .ok a := by
  induction accepts generalizing matched with
  | nil => cases h
  | cons raw rest ih =>
    have hrest {m : Bool} (h : pickAcceptFrom I x m rest = .ok a) :
        a.Fits I x ∧ ∃ raw' ∈ raw :: rest, normaliseAccept I raw' = .ok a := by
      obtain ⟨hfits, raw', hmem, hraw'⟩ := ih h
      exact ⟨hfits, raw', List.mem_cons_of_mem _ hmem, hraw'⟩
    rw [pickAcceptFrom] at h
    obtain ⟨b, hb, h⟩ := bind_eq_ok.mp h
    split at h
    · exact hrest h
    · next hscheme =>
      split at h
      · exact hrest h
      · next hnetwork =>
        obtain ⟨asset, hasset, h⟩ := bind_eq_ok.mp h
        split at h
        · exact hrest h
        · next hsame =>
          split at h
          · exact hrest h
          · next hamount =>
            obtain ⟨other, hother, h⟩ := bind_eq_ok.mp h
            split at h
            · exact hrest h
            · next hnot =>
              cases h
              refine ⟨⟨by simpa using hscheme, by simpa using hnetwork, ?_, not_lt.mp hamount, ?_⟩,
                raw, by simp, hb⟩
              · rw [hasset, not_not.mp hsame]
              · rw [hother, Bool.eq_false_of_not_eq_true hnot]

/-- The text of a value whose lower case is not empty. -/
theorem eq_str_of_loweredOr {v : Json F} {s : Str} (h : loweredOr I v = .ok s) (hs : s ≠ []) :
    ∃ t, v = .str t ∧ I.unicode.lower t = s := by
  unfold loweredOr at h
  split at h
  · cases v with
    | str t => exact ⟨t, rfl, Except.ok.inj h⟩
    | _ => cases h
  · exact absurd (Except.ok.inj h).symm hs

/-- An entry that fits names the pinned recipient. -/
theorem Accept.Fits.payTo (h : a.Fits I x) (hlower : ∀ s, I.unicode.lower s = [] → s = [])
    {recipient : Str} (hpinned : x.expectedRecipient = some recipient) (hne : recipient ≠ []) :
    ∃ payTo, a.payTo = .str payTo ∧ I.unicode.lower payTo = I.unicode.lower recipient := by
  have hrecipient : x.recipient I = some (I.unicode.lower recipient) := by
    simp [Expectation.recipient, hpinned, hne]
  have hother := h.recipient
  rw [otherRecipient, hrecipient] at hother
  obtain ⟨payTo, hpayTo, heq⟩ := bind_eq_ok.mp hother
  have hpayTo' : payTo = I.unicode.lower recipient := by simpa using Except.ok.inj heq
  rw [hpayTo'] at hpayTo
  exact eq_str_of_loweredOr hpayTo fun hnil => hne (hlower _ hnil)

variable [Json.FloatText F]

theorem buildPaymentHeader_eq_ok {signer : Signer} {now : ℤ} {token : Bytes} {typed : TypedData F}
    {header : Str} (h : buildPaymentHeader I x signer a now token = .ok (typed, header)) :
    clientTypedData x signer a now token = .ok typed := by
  unfold buildPaymentHeader at h
  obtain ⟨typed', htyped, h⟩ := bind_eq_ok.mp h
  split at h
  · cases h
  · obtain ⟨header', -, h⟩ := bind_eq_ok.mp h
    cases h
    exact htyped

/-- The client does not overpay, and pays the pinned recipient only. -/
theorem answerChallenge_le (hlower : ∀ s, I.unicode.lower s = [] → s = []) {signer : Signer}
    {challenge : Json F} {now : ℤ} {token : Bytes} {typed : TypedData F} {header : Str}
    (h : answerChallenge I x signer challenge now token = .ok (typed, header)) :
    typed.value ≤ x.expectedPriceUnits ∧
      ∀ recipient, x.expectedRecipient = some recipient → recipient ≠ [] →
        ∃ toAddr, typed.toAddr = .str toAddr ∧
          I.unicode.lower toAddr = I.unicode.lower recipient := by
  unfold answerChallenge at h
  split at h
  · simp only at h
    split at h
    · cases h
    · split at h
      · obtain ⟨a, hpick, h⟩ := bind_eq_ok.mp h
        have htyped := buildPaymentHeader_eq_ok h
        obtain ⟨hfits, -⟩ := pickAcceptFrom_eq_ok hpick
        unfold clientTypedData at htyped
        split at htyped
        · cases htyped
          exact ⟨hfits.amount, fun recipient hpinned hne => hfits.payTo hlower hpinned hne⟩
        · cases htyped
      · cases h
  · cases h

end Soundness

end DarkPool
end Arcane
