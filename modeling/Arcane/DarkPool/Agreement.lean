import Arcane.DarkPool.Server
import Arcane.DarkPool.Signature
import Arcane.DarkPool.TypedData
import Arcane.Memory.PinnedRoot
import Arcane.X402.Header

/-!
# The clients agree with the server

Both clients, given the body of the server's own 402, sign the typed data that the server rebuilds
from their header (`directTypedData`), and the server accepts it.

* `validatePayment_directContent`: the server accepts the content of such a header.
* `answerChallenge_make402`, `payHeader_directRequirements`: what the clients make of the 402.
* `clients_agree`: the two are accepted, and the Python client never overpays.
-/

namespace Arcane
namespace DarkPool

open Text Python X402

variable {F : Type} {I : Interpreter F} {cfg : Config}

/-- The signatures of the account are well formed, and are recovered to its address. -/
structure Signer.Lawful (I : Interpreter F) (signer : Signer) : Prop where
  isAscii_address : isAscii signer.address
  ne_zero : I.unicode.lower signer.address ≠ zeroAddress
  isAscii_sign : ∀ digest, isAscii (signer.sign digest)
  wellFormed : ∀ digest, checkSignature (stripHexPrefix (signer.sign digest)) = .ok ()
  recover : ∀ digest, ∃ recovered,
    I.account.recoverMessage digest (lit "0x" ++ stripHexPrefix (signer.sign digest)) =
      some recovered ∧ I.unicode.lower recovered = I.unicode.lower signer.address

/-- The amount is a `uint256`. -/
def EthAccount.Unsigned (account : EthAccount F) : Prop :=
  ∀ t digest, account.encodeTypedData t = some digest → 0 ≤ t.value

/-- The typed data of a payment of the price for the asset itself. -/
def directTypedData (cfg : Config) (fromAddr : Str) (validAfter validBefore : ℤ) (nonce : Str) :
    TypedData F :=
  buildTypedData fromAddr (.str cfg.paymentRecipient) cfg.priceUnits validAfter validBefore nonce
    cfg.chainId cfg.usdcAddress (.str cfg.usdcName) (.str cfg.usdcVersion)

section Server

variable {signer : Signer} {validAfter validBefore now : ℤ} {nonce : Str} {digest : Bytes}
  {store : NonceStore}

/-- What the server reads in the content of a header. -/
def directParts (cfg : Config) (signer : Signer) (digest : Bytes) (validAfter validBefore : ℤ)
    (nonce : Str) : Parts F where
  sig := signer.sign digest
  fields :=
    { fromAddr := .str signer.address
      toAddr := .str cfg.paymentRecipient
      value := cfg.priceUnits
      validAfter := validAfter
      validBefore := validBefore
      nonce := .str nonce }
  fromAddr := signer.address
  toAddr := cfg.paymentRecipient
  nonce := nonce

/-- The content of a header for the server. -/
def directContent (cfg : Config) (signer : Signer) (digest : Bytes) (validAfter validBefore : ℤ)
    (nonce : Str) : List (Str × Json F) :=
  paymentContent defaultScheme cfg.network (signer.sign digest) signer.address
    (.str cfg.paymentRecipient) cfg.priceUnits validAfter validBefore nonce

theorem intField_text {auth : List (Str × Json F)} {key : String} {n : ℤ}
    (h : get auth key = some (.str (intText n))) : intField I auth key = .ok n := by
  simp [intField, field, h, intOf, bind, Except.bind]

theorem reads_directContent :
    (directParts cfg signer digest validAfter validBefore nonce).Reads I cfg
      (directContent cfg signer digest validAfter validBefore nonce) where
  payload := by
    let members : List (Str × Json F) :=
      directContent cfg signer digest validAfter validBefore nonce
    let auth : List (Str × Json F) := [(lit "from", .str signer.address),
      (lit "to", .str cfg.paymentRecipient), (lit "value", .str (intText cfg.priceUnits)),
      (lit "validAfter", .str (intText validAfter)),
      (lit "validBefore", .str (intText validBefore)), (lit "nonce", .str nonce)]
    have hscheme : get members "scheme" = some (.str defaultScheme) := rfl
    have hnetwork : get members "network" = some (.str cfg.network) := rfl
    have hpayload : get members "payload" =
        some (.obj [(lit "signature", .str (signer.sign digest)),
          (lit "authorization", .obj auth)]) := rfl
    refine ⟨auth, ?_, ?_⟩
    · change payloadParts cfg members = _
      simp only [payloadParts, hscheme, hnetwork, hpayload, ne_eq, not_true_eq_false, if_false]
      rfl
    · have hvalue : intField I auth "value" = .ok cfg.priceUnits := intField_text rfl
      have hafter : intField I auth "validAfter" = .ok validAfter := intField_text rfl
      have hbefore : intField I auth "validBefore" = .ok validBefore := intField_text rfl
      simp only [authorizationFields, hvalue, hafter, hbefore]
      rfl
  fromAddr := rfl
  toAddr := rfl
  nonce := rfl

/-- The typed data of the asset's own domain has the signer. -/
theorem signed_directContent (hsigner : signer.Lawful I)
    (hdigest : I.account.encodeTypedData
      (directTypedData cfg signer.address validAfter validBefore nonce) = some digest) :
    ∃ recovered d, (directParts cfg signer digest validAfter validBefore nonce).Signed I cfg
        recovered d ∧ d.verifyingContract = cfg.usdcAddress ∧
        I.unicode.lower recovered = I.unicode.lower signer.address ∧
        I.account.encodeTypedData ((directParts cfg signer digest validAfter validBefore
          nonce).typed cfg d) = some digest := by
  obtain ⟨recovered, hrecover, hlower⟩ := hsigner.recover digest
  let d : CandidateDomain := ⟨cfg.usdcAddress, cfg.usdcName, cfg.usdcVersion⟩
  have hrecovers : recoverSigner I
      ((directParts cfg signer digest validAfter validBefore nonce).typed cfg d)
      (signer.sign digest) = .ok recovered := by
    refine recoverSigner_eq_ok.mpr ⟨digest, hsigner.wellFormed digest, hdigest, hrecover, ?_⟩
    rw [hlower]
    exact hsigner.ne_zero
  have hmatches : matchesFrom I
      ((directParts cfg signer digest validAfter validBefore nonce).typed cfg)
      (signer.sign digest) signer.address d = true := by
    rw [matchesFrom, hrecovers]
    simp [hlower]
  refine ⟨recovered, d, ⟨hsigner.ne_zero, ?_, hrecovers⟩, rfl, hlower, hdigest⟩
  exact List.find?_cons_of_pos hmatches

/-- The row of a payment of the signer for the asset itself. -/
def directKey (I : Interpreter F) (cfg : Config) (signer : Signer) (nonce : Str) : NonceKey :=
  nonceKey I.unicode (I.unicode.lower signer.address) (I.unicode.lower nonce) cfg.chainId
    cfg.usdcAddress

/-- The server accepts the content of a header that is signed for its price, within the validity,
and with a fresh nonce. -/
theorem validatePayment_directContent (hI : I.account.Unsigned) (hsigner : signer.Lawful I)
    (hdigest : I.account.encodeTypedData
      (directTypedData cfg signer.address validAfter validBefore nonce) = some digest)
    (hafter : validAfter ≤ now) (hbefore : now < validBefore)
    (hfresh : store.has (directKey I cfg signer nonce) = some false) :
    ∃ v, validatePayment I cfg now store
        (directContent cfg signer digest validAfter validBefore nonce) = .ok v ∧
      v.key I cfg = directKey I cfg signer nonce ∧ v.validBefore = validBefore ∧
      v.signer = I.unicode.lower signer.address ∧
      I.account.encodeTypedData v.typed = some digest := by
  obtain ⟨recovered, d, hsigned, hcontract, hlower, hencode⟩ :=
    signed_directContent hsigner hdigest
  have hprice : 0 ≤ cfg.priceUnits := hI _ _ hdigest
  have hterms : checkTerms I cfg now
      (directParts cfg signer digest validAfter validBefore nonce).fields
      cfg.paymentRecipient = .ok () := by
    refine checkTerms_eq_ok.mpr ⟨hbefore, ?_, rfl, le_refl _, ?_⟩
    · change validAfter ≤ now + 5
      omega
    · change cfg.priceUnits ≤ cfg.priceUnits * 2
      omega
  have hvalid : validateSignature I cfg now
      (directContent cfg signer digest validAfter validBefore nonce) =
      .ok ((directParts cfg signer digest validAfter validBefore nonce).valid I cfg recovered d) :=
    Parts.validateSignature_eq_ok.mpr ⟨_, recovered, d, reads_directContent, hterms, hsigned, rfl⟩
  have hkey : ((directParts cfg signer digest validAfter validBefore nonce).valid I cfg recovered
      d).key I cfg = directKey I cfg signer nonce := by
    simp only [Valid.key, Parts.valid, directKey, hlower, hcontract]
    rfl
  refine ⟨_, ?_, hkey, rfl, hlower, hencode⟩
  unfold validatePayment
  refine bind_eq_ok.mpr ⟨_, hvalid, ?_⟩
  simp only [hkey, hfresh]

end Server

section Header

variable [Json.FloatText F]

/-- What was encoded is parsed again. -/
theorem loadsBase64_encode (S : Json.Style) (hS : S.sortKeys = false) {v : Json F}
    (hv : Json.Plain v) :
    loadsBase64 (Base64.encode ((utf8 (Json.render S v)).getD [])) = some v := by
  obtain ⟨b, hb⟩ := Option.isSome_iff_exists.mp
    (utf8_isSome_iff.mpr (Json.isScalar_render S (Json.plain_iff.mp hv).1))
  rw [loadsBase64, hb, Option.getD_some, Base64.decode_encode, Option.bind_some,
    utf8Decode_utf8 hb, Option.bind_some, Json.parse_render S hS hv]

theorem parsePaymentHeader_encode (S : Json.Style) (hS : S.sortKeys = false)
    {members : List (Str × Json F)} (hv : Json.Plain (.obj members)) :
    parsePaymentHeader (Base64.encode ((utf8 (Json.render S (.obj members))).getD [])) =
      .ok members := by
  rw [parsePaymentHeader, loadsBase64_encode S hS hv]
  rfl

end Header

section Plain

variable {signer : Signer} {digest : Bytes} {validAfter validBefore : ℤ} {nonce resource : Str}
  {error : Option Str}

theorem keyed_directContent :
    Json.Keyed (F := F) (.obj (directContent cfg signer digest validAfter validBefore nonce)) := by
  apply Json.keyed_obj ["x402Version", "scheme", "network", "payload"] rfl (by decide)
  simp only [directContent, paymentContent, List.forall_mem_cons]
  refine ⟨trivial, trivial, trivial, ?_, by simp⟩
  apply Json.keyed_obj ["signature", "authorization"] rfl (by decide)
  simp only [List.forall_mem_cons]
  refine ⟨trivial, ?_, by simp⟩
  apply Json.keyed_obj ["from", "to", "value", "validAfter", "validBefore", "nonce"] rfl
    (by decide)
  simp only [List.forall_mem_cons]
  exact ⟨trivial, trivial, trivial, trivial, trivial, trivial, by simp⟩

theorem keyed_requirementsDict {description : Str} {extra : List (Str × Json F)}
    (h : Json.Keyed (.obj extra)) :
    Json.Keyed (requirementsDict cfg resource description extra) := by
  apply Json.keyed_obj ["scheme", "network", "maxAmountRequired", "resource", "description",
    "mimeType", "payTo", "maxTimeoutSeconds", "asset", "extra"] rfl (by decide)
  simp only [List.forall_mem_cons]
  exact ⟨trivial, trivial, trivial, trivial, trivial, trivial, trivial, trivial, trivial, h,
    by simp⟩

theorem keyed_allAccepts : ∀ v ∈ allAccepts (F := F) cfg resource, Json.Keyed v := by
  intro v hv
  rcases List.mem_cons.mp hv with rfl | hv
  · apply keyed_requirementsDict
    apply Json.keyed_obj ["name", "version"] rfl (by decide)
    simp only [List.forall_mem_cons]
    exact ⟨trivial, trivial, by simp⟩
  · obtain ⟨wallet, -, rfl⟩ := Option.map_eq_some_iff.mp (Option.mem_toList.mp hv)
    apply keyed_requirementsDict
    apply Json.keyed_obj ["name", "version", "verifyingContract"] rfl (by decide)
    simp only [List.forall_mem_cons]
    exact ⟨trivial, trivial, trivial, by simp⟩

theorem keyed_make402 : Json.Keyed (make402 (F := F) cfg resource error) := by
  have haccepts : Json.Keyed (.arr (allAccepts (F := F) cfg resource)) :=
    Json.all_arr.mpr ⟨trivial, keyed_allAccepts⟩
  cases error with
  | none =>
    apply Json.keyed_obj ["x402Version", "accepts"] rfl (by decide)
    simp only [List.forall_mem_cons, List.cons_append, List.nil_append]
    exact ⟨trivial, haccepts, by simp⟩
  | some e =>
    apply Json.keyed_obj ["x402Version", "accepts", "error"] rfl (by decide)
    simp only [List.forall_mem_cons, List.cons_append, List.nil_append, Option.toList_some,
      List.map_cons]
    exact ⟨trivial, haccepts, trivial, by simp⟩

/-- The strings of the configuration that the clients send back hold no surrogate. -/
theorem scalar_make402 (h : Json.Scalar (make402 (F := F) cfg resource error)) :
    (∀ c ∈ cfg.network, IsScalar c) ∧ ∀ c ∈ cfg.paymentRecipient, IsScalar c := by
  have haccepts : Json.Scalar (.arr (allAccepts (F := F) cfg resource)) :=
    scalar_of_get "accepts" h rfl
  have hdirect : Json.Scalar (paymentRequirements (F := F) cfg resource) :=
    (Json.all_arr.mp haccepts).2 _ (by simp [allAccepts])
  exact ⟨scalar_of_get "network" hdirect rfl,
    scalar_of_get "payTo" hdirect rfl⟩

theorem scalar_directContent (hsigner : signer.Lawful I) (hnonce : isAscii nonce)
    (h : (∀ c ∈ cfg.network, IsScalar c) ∧ ∀ c ∈ cfg.paymentRecipient, IsScalar c) :
    Json.Scalar (F := F)
      (.obj (directContent cfg signer digest validAfter validBefore nonce)) := by
  have hascii {s : Str} (hs : isAscii s) : ∀ c ∈ s, IsScalar c := fun c hc =>
    Json.isScalar_of_lt (hs c hc)
  apply Json.scalar_obj ["x402Version", "scheme", "network", "payload"] rfl (by decide)
  simp only [directContent, paymentContent, List.forall_mem_cons]
  refine ⟨trivial, ?_, h.1, ?_, by simp⟩
  · exact fun c hc => Json.isScalar_of_lt (Json.printable_lit (by decide) c hc).2
  apply Json.scalar_obj ["signature", "authorization"] rfl (by decide)
  simp only [List.forall_mem_cons]
  refine ⟨hascii (hsigner.isAscii_sign digest), ?_, by simp⟩
  apply Json.scalar_obj ["from", "to", "value", "validAfter", "validBefore", "nonce"] rfl
    (by decide)
  simp only [List.forall_mem_cons]
  exact ⟨hascii hsigner.isAscii_address, h.2, Json.scalar_intText _, Json.scalar_intText _,
    Json.scalar_intText _, hascii hnonce, by simp⟩

end Plain

section Clients

variable {signer : Signer} {digest : Bytes} {resource : Str} {error recipient : Option Str}
  {now : ℤ} {token : Bytes}

/-- What a caller expects who knows the server's configuration; the recipient may be pinned. -/
def Config.expectation (cfg : Config) (recipient : Option Str) : Expectation where
  network := cfg.network
  assetAddress := cfg.usdcAddress
  chainId := cfg.chainId
  expectedPriceUnits := cfg.priceUnits
  expectedRecipient := recipient

/-- The normalised entry for the asset itself. -/
def directAccept (cfg : Config) (resource : Str) : Accept F where
  scheme := .str defaultScheme
  network := .str cfg.network
  maxAmountRequired := cfg.priceUnits
  payTo := .str cfg.paymentRecipient
  asset := .str cfg.usdcAddress
  maxTimeoutSeconds := cfg.maxTimeoutSeconds
  extra := .obj [(lit "name", .str cfg.usdcName), (lit "version", .str cfg.usdcVersion)]
  resource := .str resource

theorem normaliseAccept_paymentRequirements :
    normaliseAccept I (paymentRequirements cfg resource) = .ok (directAccept cfg resource) := by
  unfold normaliseAccept paymentRequirements requirementsDict
  refine bind_eq_ok.mpr ⟨cfg.priceUnits, ?_, bind_eq_ok.mpr ⟨cfg.maxTimeoutSeconds, rfl, rfl⟩⟩
  change (intOf I.unicode I.truncate (.str (intText cfg.priceUnits))).mapError _ = _
  simp [intOf, Except.mapError]

/-- The lower case of a text. -/
theorem loweredOr_str (s : Str) : loweredOr I (.str s) = .ok (I.unicode.lower s) := by
  cases s with
  | nil =>
    have h : I.unicode.lower [] = [] := I.unicode.lower_ascii [] (by simp [isAscii])
    simp [loweredOr, truthy, h]
  | cons c s => simp [loweredOr, truthy]

theorem isText_str (s : Str) : isText (F := F) (.str s) s = true := by simp [isText]

/-- The client picks the entry for the asset itself. -/
theorem pickAccept_allAccepts (hrecipient : ∀ r, recipient = some r → r = cfg.paymentRecipient) :
    pickAccept I (cfg.expectation recipient) (allAccepts cfg resource) =
      .ok (directAccept cfg resource) := by
  have hother : otherRecipient I (cfg.expectation recipient)
      (directAccept cfg resource) = .ok false := by
    unfold otherRecipient
    cases h : (cfg.expectation recipient).recipient I with
    | none => rfl
    | some r =>
      obtain ⟨r', hr', rfl⟩ := Option.map_eq_some_iff.mp h
      have heq := hrecipient r' (Option.eq_some_of_filter_eq_some hr')
      refine bind_eq_ok.mpr ⟨_, loweredOr_str cfg.paymentRecipient, ?_⟩
      simp [heq, pure, Except.pure]
  unfold pickAccept allAccepts
  rw [pickAcceptFrom, normaliseAccept_paymentRequirements]
  refine bind_eq_ok.mpr ⟨_, rfl, ?_⟩
  rw [if_neg (by simp [directAccept, isText_str]), if_neg (by
    simp [directAccept, Config.expectation, isText_str])]
  refine bind_eq_ok.mpr ⟨_, loweredOr_str cfg.usdcAddress, ?_⟩
  have hasset : ¬ I.unicode.lower cfg.usdcAddress ≠
      I.unicode.lower (cfg.expectation recipient).assetAddress := not_not.mpr rfl
  have hamount : ¬ (directAccept (F := F) cfg resource).maxAmountRequired >
      (cfg.expectation recipient).expectedPriceUnits := lt_irrefl _
  rw [if_neg hasset, if_neg hamount]
  exact bind_eq_ok.mpr ⟨false, hother, rfl⟩

theorem nonceHex_prefixed : prefixed (nonceHex token) = nonceHex token := by
  have h : (lit "0x").isPrefixOf (nonceHex token) = true :=
    List.isPrefixOf_iff_prefix.mpr (List.prefix_append _ _)
  rw [prefixed, if_pos h]

theorem isAscii_nonceHex : isAscii (nonceHex token) := by
  intro c hc
  rcases List.mem_append.mp hc with hc | hc
  · exact (Json.printable_lit (by decide) c hc).2
  · exact isAscii_hex token c hc

variable [Json.FloatText F]

/-- A header with the content that the server reads. -/
def directHeader (S : Json.Style) (F : Type) [Json.FloatText F] (cfg : Config) (signer : Signer)
    (digest : Bytes) (validAfter validBefore : ℤ) (nonce : Str) : Str :=
  Base64.encode ((utf8 (Json.render S
    (.obj (directContent (F := F) cfg signer digest validAfter validBefore nonce)))).getD [])

/-- What the Python client makes of the server's 402. -/
theorem answerChallenge_make402 (hrecipient : ∀ r, recipient = some r → r = cfg.paymentRecipient)
    (hdigest : I.account.encodeTypedData (directTypedData cfg signer.address (now - 1)
      (now + cfg.maxTimeoutSeconds) (nonceHex token)) = some digest)
    (hscalar : Json.Scalar (F := F) (.obj (directContent cfg signer digest (now - 1)
      (now + cfg.maxTimeoutSeconds) (nonceHex token)))) :
    answerChallenge I (cfg.expectation recipient) signer (make402 cfg resource error) now token =
      .ok (directTypedData cfg signer.address (now - 1) (now + cfg.maxTimeoutSeconds)
          (nonceHex token),
        directHeader dumpsStyle F cfg signer digest (now - 1) (now + cfg.maxTimeoutSeconds)
          (nonceHex token)) := by
  obtain ⟨b, hb⟩ := Option.isSome_iff_exists.mp
    (utf8_isSome_iff.mpr (Json.isScalar_render dumpsStyle hscalar))
  have hbuild : buildPaymentHeader I (cfg.expectation recipient) signer (directAccept cfg resource)
      now token = .ok (directTypedData cfg signer.address (now - 1) (now + cfg.maxTimeoutSeconds)
          (nonceHex token),
        directHeader dumpsStyle F cfg signer digest (now - 1) (now + cfg.maxTimeoutSeconds)
          (nonceHex token)) := by
    unfold buildPaymentHeader
    refine bind_eq_ok.mpr ⟨directTypedData cfg signer.address (now - 1)
      (now + cfg.maxTimeoutSeconds) (nonceHex token), rfl, ?_⟩
    rw [hdigest]
    refine bind_eq_ok.mpr ⟨_, ?_, rfl⟩
    change dumpsBase64 (.obj (directContent cfg signer digest (now - 1)
      (now + cfg.maxTimeoutSeconds) (nonceHex token))) = _
    rw [dumpsBase64, directHeader, hb]
    rfl
  have haccepts : ∀ rest : List (Str × Json F),
      get ((lit "x402Version", .int x402Version) ::
        (lit "accepts", .arr (allAccepts cfg resource)) :: rest) "accepts" =
      some (.arr (allAccepts cfg resource)) := fun _ => rfl
  unfold answerChallenge make402
  simp only [List.cons_append, List.nil_append, haccepts, Option.getD_some]
  rw [if_neg (by simp [truthy, allAccepts])]
  exact bind_eq_ok.mpr ⟨_, pickAccept_allAccepts hrecipient, hbuild⟩

/-- The entry for the asset itself, as the TypeScript client reads it. -/
def directRequirements (cfg : Config) (resource : Str) : PaymentRequirements where
  scheme := defaultScheme
  network := cfg.network
  maxAmountRequired := intText cfg.priceUnits
  resource := resource
  description := lit "RaBitQ dark pool query"
  mimeType := lit "application/json"
  payTo := cfg.paymentRecipient
  maxTimeoutSeconds := cfg.maxTimeoutSeconds
  asset := cfg.usdcAddress
  extra := ⟨some cfg.usdcName, some cfg.usdcVersion, none⟩

def gatewayRequirements (cfg : Config) (resource wallet : Str) : PaymentRequirements :=
  { directRequirements cfg resource with
    description := lit "RaBitQ dark pool query (Circle Gateway batched)"
    extra := ⟨some cfg.gatewayDomainName, some cfg.gatewayDomainVersion, some wallet⟩ }

omit [Json.FloatText F] in
theorem acceptsOf_make402 : acceptsOf (make402 (F := F) cfg resource error) =
    some (directRequirements cfg resource ::
      (cfg.gatewayWalletAddress.map (gatewayRequirements cfg resource)).toList) := by
  have haccepts : acceptsOf (make402 (F := F) cfg resource error) =
      (allAccepts (F := F) cfg resource).mapM requirementsOf := rfl
  have hdirect : requirementsOf (paymentRequirements (F := F) cfg resource) =
      some (directRequirements cfg resource) := rfl
  rw [haccepts, allAccepts, gatewayPaymentRequirements, List.mapM_cons, hdirect]
  cases cfg.gatewayWalletAddress with
  | none => rfl
  | some wallet => rfl

/-- What a caller sets who knows the server's configuration. -/
def Config.paySettings (cfg : Config) (validForSeconds : Option ℤ) (recipient : Option Str)
    (cap : Option ℤ) : PaySettings where
  policy := ⟨cfg.network, some cfg.usdcAddress, cfg.priceUnits⟩
  chainId := cfg.chainId
  validForSeconds := validForSeconds
  expectedRecipient := recipient
  maxAmountBaseUnits := cap

variable {validForSeconds cap : Option ℤ}

/-- How long the TypeScript client's authorization is valid. -/
def Config.validFor (cfg : Config) (validForSeconds : Option ℤ) : ℤ :=
  validForSeconds.getD (max 15 cfg.maxTimeoutSeconds)

omit [Json.FloatText F] in
theorem pickAccept_directRequirements (U : Unicode) (rest : List PaymentRequirements) :
    X402.pickAccept U (directRequirements cfg resource :: rest)
      (cfg.paySettings validForSeconds recipient cap).policy =
      .ok (directRequirements cfg resource) := by
  have hasset : (cfg.paySettings validForSeconds recipient cap).policy.otherAsset U
      (directRequirements cfg resource) = false := by
    simp [Policy.otherAsset, Config.paySettings, directRequirements]
  have hamount : ¬ cfg.priceUnits >
      (cfg.paySettings validForSeconds recipient cap).policy.maxAmountBaseUnits := lt_irrefl _
  have hrequired : bigInt (directRequirements cfg resource).maxAmountRequired =
      some cfg.priceUnits := bigInt_intText _
  have hscheme : ¬ (directRequirements cfg resource).scheme ≠ lit "exact" := not_not.mpr rfl
  have hnetwork : ¬ (directRequirements cfg resource).network ≠
      (cfg.paySettings validForSeconds recipient cap).policy.network := not_not.mpr rfl
  rw [X402.pickAccept, if_neg (by simp), X402.pickAcceptFrom, if_neg hscheme, if_neg hnetwork,
    hasset, if_neg (by simp), hrequired]
  exact if_neg hamount

omit [Json.FloatText F] in
/-- The domain and the message that the TypeScript client signs. -/
theorem transferMessage_directRequirements (U : Unicode)
    (hname : cfg.usdcName ≠ gatewayBatchedDomainName)
    (hrecipient : ∀ r, recipient = some r → r = cfg.paymentRecipient)
    (hcap : ∀ c, cap = some c → cfg.priceUnits ≤ c) :
    transferMessage U signer.address
      ((cfg.paySettings validForSeconds recipient cap).signArgs (directRequirements cfg resource)
        cfg.priceUnits now token) =
      .ok (⟨cfg.usdcName, cfg.usdcVersion, cfg.chainId, cfg.usdcAddress⟩,
        { fromAddr := signer.address
          toAddr := cfg.paymentRecipient
          value := cfg.priceUnits
          validAfter := now - 1
          validBefore := now + cfg.validFor validForSeconds
          nonce := nonceHex token }) := by
  have hother : SignArgs.otherRecipient U
      ((cfg.paySettings validForSeconds recipient cap).signArgs (directRequirements cfg resource)
        cfg.priceUnits now token) = false := by
    cases recipient with
    | none => rfl
    | some r =>
      obtain rfl := hrecipient r rfl
      simp [SignArgs.otherRecipient, PaySettings.signArgs, Config.paySettings, directRequirements]
  have hamount : SignArgs.checkAmount
      ((cfg.paySettings validForSeconds recipient cap).signArgs (directRequirements cfg resource)
        cfg.priceUnits now token) = .ok () := by
    cases cap with
    | none => rfl
    | some c =>
      have hle := not_lt.mpr (hcap c rfl)
      simp [SignArgs.checkAmount, PaySettings.signArgs, Config.paySettings, directRequirements,
        bigInt_intText, hle]
  have hdomain : resolveDomain (directRequirements cfg resource) cfg.chainId =
      .ok ⟨cfg.usdcName, cfg.usdcVersion, cfg.chainId, cfg.usdcAddress⟩ := by
    simp [resolveDomain, directRequirements, hname]
  rw [transferMessage, hother, if_neg (by simp)]
  refine bind_eq_ok.mpr ⟨(), hamount, bind_eq_ok.mpr ⟨_, hdomain, rfl⟩⟩

/-- What the TypeScript client makes of the server's 402. -/
theorem payHeader_directRequirements (U : Unicode) (rest : List PaymentRequirements)
    (hname : cfg.usdcName ≠ gatewayBatchedDomainName)
    (hrecipient : ∀ r, recipient = some r → r = cfg.paymentRecipient)
    (hcap : ∀ c, cap = some c → cfg.priceUnits ≤ c)
    (hdigest : I.account.encodeTypedData (directTypedData cfg signer.address (now - 1)
      (now + cfg.validFor validForSeconds) (nonceHex token)) = some digest) :
    payHeader U I.account (cfg.paySettings validForSeconds recipient cap) signer
        (directRequirements cfg resource :: rest) now token =
      .ok (directTypedData cfg signer.address (now - 1) (now + cfg.validFor validForSeconds)
          (nonceHex token),
        directHeader stringifyStyle F cfg signer digest (now - 1)
          (now + cfg.validFor validForSeconds) (nonceHex token)) := by
  have htyped : typedData ⟨cfg.usdcName, cfg.usdcVersion, cfg.chainId, cfg.usdcAddress⟩
      { fromAddr := signer.address
        toAddr := cfg.paymentRecipient
        value := cfg.priceUnits
        validAfter := now - 1
        validBefore := now + cfg.validFor validForSeconds
        nonce := nonceHex token } =
      directTypedData (F := F) cfg signer.address (now - 1) (now + cfg.validFor validForSeconds)
        (nonceHex token) := by
    simp [typedData, directTypedData, buildTypedData, nonceHex_prefixed]
  have hamount : bigInt (directRequirements cfg resource).maxAmountRequired =
      some cfg.priceUnits := bigInt_intText _
  unfold payHeader
  refine bind_eq_ok.mpr ⟨_, pickAccept_directRequirements U rest, ?_⟩
  rw [hamount]
  refine bind_eq_ok.mpr ⟨_, transferMessage_directRequirements U hname hrecipient hcap, ?_⟩
  simp only [htyped, hdigest]
  rfl

/-- The server accepts a header at the time `now`. -/
def AcceptsHeader (I : Interpreter F) (cfg : Config) (now : ℤ) (store : NonceStore)
    (header : Str) : Prop :=
  ∃ members v, parsePaymentHeader header = .ok members ∧
    validatePayment I cfg now store members = .ok v

/-- A header for the server's price is accepted within its validity, and with a fresh nonce. -/
theorem acceptsHeader_directHeader (S : Json.Style) (hS : S.sortKeys = false)
    (hI : I.account.Unsigned) (hsigner : signer.Lawful I) {validAfter validBefore : ℤ}
    {nonce : Str} {store : NonceStore}
    (hdigest : I.account.encodeTypedData
      (directTypedData cfg signer.address validAfter validBefore nonce) = some digest)
    (hscalar : Json.Scalar (F := F) (.obj
      (directContent cfg signer digest validAfter validBefore nonce)))
    (hafter : validAfter ≤ now) (hbefore : now < validBefore)
    (hfresh : store.has (directKey I cfg signer nonce) = some false) :
    AcceptsHeader I cfg now store
      (directHeader S F cfg signer digest validAfter validBefore nonce) := by
  have hplain := Json.plain_iff.mpr ⟨hscalar, keyed_directContent⟩
  obtain ⟨v, hv, -⟩ := validatePayment_directContent hI hsigner hdigest hafter hbefore hfresh
  exact ⟨_, v, parsePaymentHeader_encode S hS hplain, hv⟩

/-- The clients read the content of the server's 402. -/
theorem loads_make402 {body : Bytes}
    (hbody : rendered (make402 (F := F) cfg resource error) = some body) :
    (utf8Decode body).bind Json.parse = some (make402 (F := F) cfg resource error) ∧
      Json.Scalar (make402 (F := F) cfg resource error) := by
  obtain ⟨-, hutf8⟩ := Option.ite_none_right_eq_some.mp hbody
  have hscalar := Json.scalar_of_render responseStyle (fun _ => rfl)
    (utf8_isSome_iff.mp (Option.isSome_of_eq_some hutf8))
  refine ⟨?_, hscalar⟩
  rw [utf8Decode_utf8 hutf8, Option.bind_some]
  exact Json.parse_render responseStyle rfl (Json.plain_iff.mpr ⟨hscalar, keyed_make402⟩)

/-- The headers that the clients build from the body of the server's 402 are accepted, and whatever
the body, the Python client signs for no more than the expected price, and for no other recipient
than the pinned one. -/
theorem clients_agree (recipient : Option Str) (validForSeconds cap : Option ℤ)
    (hI : I.account.Unsigned)
    (hlower : ∀ s, I.unicode.lower s = [] → s = [])
    (hname : cfg.usdcName ≠ gatewayBatchedDomainName) {body : Bytes}
    (hbody : rendered (make402 (F := F) cfg resource error) = some body)
    (hrecipient : ∀ r, recipient = some r → r = cfg.paymentRecipient)
    (hcap : ∀ c, cap = some c → cfg.priceUnits ≤ c) (hsigner : signer.Lawful I) :
    ∃ challenge : Json F, ∃ accepts, (utf8Decode body).bind Json.parse = some challenge ∧
      acceptsOf challenge = some accepts ∧
      (∀ (now serverNow : ℤ) (token : Bytes) (store : NonceStore),
        (I.account.encodeTypedData (directTypedData cfg signer.address (now - 1)
          (now + cfg.maxTimeoutSeconds) (nonceHex token))).isSome →
        now - 1 ≤ serverNow → serverNow < now + cfg.maxTimeoutSeconds →
        store.has (directKey I cfg signer (nonceHex token)) = some false →
        ∃ typed header, answerChallenge I (cfg.expectation recipient) signer challenge now token =
          .ok (typed, header) ∧ AcceptsHeader I cfg serverNow store header) ∧
      (∀ (U : Unicode) (now serverNow : ℤ) (token : Bytes) (store : NonceStore),
        (I.account.encodeTypedData (directTypedData cfg signer.address (now - 1)
          (now + cfg.validFor validForSeconds) (nonceHex token))).isSome →
        now - 1 ≤ serverNow → serverNow < now + cfg.validFor validForSeconds →
        store.has (directKey I cfg signer (nonceHex token)) = some false →
        ∃ (typed : TypedData F) (header : Str),
          payHeader U I.account (cfg.paySettings validForSeconds recipient cap) signer accepts now
            token = .ok (typed, header) ∧ AcceptsHeader I cfg serverNow store header) ∧
      ∀ (x : Expectation) (signer : Signer) (challenge : Json F) (now : ℤ) (token : Bytes)
        (typed : TypedData F) (header : Str),
        answerChallenge I x signer challenge now token = .ok (typed, header) →
        typed.value ≤ x.expectedPriceUnits ∧
          ∀ r, x.expectedRecipient = some r → r ≠ [] →
            ∃ toAddr, typed.toAddr = .str toAddr ∧ I.unicode.lower toAddr = I.unicode.lower r := by
  obtain ⟨hloads, hscalar⟩ := loads_make402 hbody
  have hcontent {digest : Bytes} {validAfter validBefore : ℤ} {token : Bytes} :
      Json.Scalar (F := F) (.obj (directContent cfg signer digest validAfter validBefore
        (nonceHex token))) :=
    scalar_directContent hsigner isAscii_nonceHex (scalar_make402 hscalar)
  refine ⟨_, _, hloads, acceptsOf_make402, ?_, ?_, ?_⟩
  · intro now serverNow token store hencode hafter hbefore hfresh
    obtain ⟨digest, hdigest⟩ := Option.isSome_iff_exists.mp hencode
    exact ⟨_, _, answerChallenge_make402 hrecipient hdigest hcontent,
      acceptsHeader_directHeader dumpsStyle rfl hI hsigner hdigest hcontent hafter hbefore hfresh⟩
  · intro U now serverNow token store hencode hafter hbefore hfresh
    obtain ⟨digest, hdigest⟩ := Option.isSome_iff_exists.mp hencode
    exact ⟨_, _, payHeader_directRequirements U _ hname hrecipient hcap hdigest,
      acceptsHeader_directHeader stringifyStyle rfl hI hsigner hdigest hcontent hafter hbefore
        hfresh⟩
  · intro x signer challenge now token typed header h
    exact answerChallenge_le hlower h

end Clients

namespace Demo

open Memory.MemoryService.Demo

def seller : Str := lit "0x2B5AD5c4795c026514f8317c7a215E218DcCD6cF"

/-- The address of the key 1. -/
def buyer : Str := lit "0x7E5F4552091A69125d5DfCb7b8C2659029395Bdf"

def config : Config where
  priceUnits := 1000
  paymentRecipient := seller
  chainId := 5042002
  usdcAddress := lit "0x3600000000000000000000000000000000000000"
  network := lit "arc-testnet"
  usdcName := lit "USDC"
  usdcVersion := lit "2"
  maxTimeoutSeconds := 60
  gatewayWalletAddress := none
  gatewayDomainName := gatewayBatchedDomainName
  gatewayDomainVersion := gatewayBatchedDomainVersion

def signatureBytes (r s : ℕ) (v : UInt8) : Bytes := Abi.word r ++ Abi.word s ++ [v]

/-- What the buyer's key signs the digests with. -/
def signatures : List (ℕ × Bytes) :=
  [(0xdce04a0e31ad2006812379b2ae18601799151ab97e46c601a70435a43fef70e7,
      signatureBytes 0xa7b0bc3d5604c3204eb9b2573e72470be599a30d464d2cd1fc9ef553c6b6437e
        0x2b2ece82fa6a18a686cc4d1d52b7ffc436fda67f5736a766062696f1d49056f5 0x1c),
    (0xb269f84076b5f97bae7b267e345f71b1eefeab23dc46ed6e10486ff07d18a589,
      signatureBytes 0x061454bd6b97e7ce9e9a0ba8c7f5693d95055fdbe759c7a1843dd70a9046aae9
        0x23b5c4579bb8851c8931e7765b84a6d0325e2f3e72bcc77f249eb241bafaf24f 0x1b),
    (0xa1105cd862ff1791c08f74ecac13be91c6f3b07a12e2a4ed4560a38acfb2e516,
      signatureBytes 0x17ecb362a06c59f281da935a957af142163ebf3f9824865df7d7c66de498c591
        0x297cee24f1181a1fbab7bd244800c435764428d973d07963f6da06dbfba1883a 0x1b),
    (0x331b72b4656608b754d926f4707b706080216d3af17918015bcb4f071e11e798,
      signatureBytes 0xdc532134555258cf803eb12bd760f2b59e7055babac30ef6f4eea9f3b2145ec8
        0x4b193904b446b255174b3de9d3660ea211a0bf099519444493bad2e0146cff88 0x1c)]

/-- Any other digest is signed with this. -/
def otherSignature : Bytes := signatureBytes 1 1 27

def signatureOf (digest : Bytes) : Bytes :=
  ((signatures.find? fun s => s.1 = Abi.ofBytes digest).map (·.2)).getD otherSignature

/-- EIP-712 digests, and the signatures of the buyer. -/
def account : EthAccount Flt where
  encodeTypedData := TypedData.digest
  recoverMessage digest sig :=
    if sig = lit "0x" ++ hex (signatureOf digest) then some buyer else none
  recover_ascii d s a h := by
    obtain ⟨-, h⟩ := Option.ite_none_right_eq_some.mp h
    cases h
    exact fun c hc => (Json.printable_lit (by decide) c hc).2

def interpreter : Interpreter Flt where
  unicode := .ascii
  truncate _ := 0
  isZero x := x = .zero
  account := account
  cause _ := []

def signer : Signer where
  address := buyer
  sign digest := hex (signatureOf digest)

theorem signatureOf_mem (digest : Bytes) :
    signatureOf digest ∈ otherSignature :: signatures.map (·.2) := by
  unfold signatureOf
  cases h : signatures.find? fun s => s.1 = Abi.ofBytes digest with
  | none => exact List.mem_cons_self
  | some s => exact List.mem_cons_of_mem _ (List.mem_map_of_mem (List.mem_of_find?_eq_some h))

/-- Every signature is well formed, without a prefix. -/
theorem signatures_wellFormed : ∀ s ∈ otherSignature :: signatures.map (·.2),
    checkSignature (stripHexPrefix (hex s)) = .ok () ∧ stripHexPrefix (hex s) = hex s := by
  decide +kernel

theorem lawful : signer.Lawful interpreter where
  isAscii_address c hc := (Json.printable_lit (by decide) c hc).2
  ne_zero := by decide
  isAscii_sign digest := isAscii_hex _
  wellFormed digest := (signatures_wellFormed _ (signatureOf_mem digest)).1
  recover digest := by
    refine ⟨buyer, ?_, rfl⟩
    have hstrip : stripHexPrefix (hex (signatureOf digest)) = hex (signatureOf digest) :=
      (signatures_wellFormed _ (signatureOf_mem digest)).2
    change (if lit "0x" ++ stripHexPrefix (hex (signatureOf digest)) =
      lit "0x" ++ hex (signatureOf digest) then some buyer else none) = some buyer
    rw [hstrip, if_pos rfl]

theorem unsigned : account.Unsigned := fun _ _ h => TypedData.value_nonneg_of_digest h

def token : Bytes := List.replicate 32 7

example :
    (account.encodeTypedData (directTypedData config buyer 999 1060 (nonceHex token))).map hex =
    some (lit "dce04a0e31ad2006812379b2ae18601799151ab97e46c601a70435a43fef70e7") := by
  decide +kernel

/-- Both headers for a 402 of `/query` are accepted half a minute later. -/
theorem headers_accepted :
    (∃ challenge typed header, answerChallenge interpreter (config.expectation (some seller)) signer
        challenge 1000 token = .ok (typed, header) ∧
      AcceptsHeader interpreter config 1030 ⟨true, ∅⟩ header) ∧
    ∃ accepts, ∃ (typed : TypedData Flt) (header : Str), payHeader .ascii account
        (config.paySettings none (some seller) (some 1000)) signer accepts 1000 token =
          .ok (typed, header) ∧
      AcceptsHeader interpreter config 1030 ⟨true, ∅⟩ header := by
  have hsome : (rendered (make402 (F := Flt) config (lit "/query") none)).isSome := by
    decide +kernel
  obtain ⟨body, hbody⟩ := Option.isSome_iff_exists.mp hsome
  have hfresh : (⟨true, ∅⟩ : NonceStore).has (directKey interpreter config signer
      (nonceHex token)) = some false := by
    decide
  have hencode : (account.encodeTypedData (directTypedData config signer.address (1000 - 1)
      (1000 + 60) (nonceHex token))).isSome := by
    decide +kernel
  have hlower : ∀ s, interpreter.unicode.lower s = [] → s = [] := fun s h =>
    List.map_eq_nil_iff.mp h
  have hname : config.usdcName ≠ gatewayBatchedDomainName := by decide
  obtain ⟨challenge, accepts, -, -, hpython, htypescript, -⟩ :=
    clients_agree (some seller) none (some 1000) unsigned hlower hname hbody
      (fun r hr => (Option.some.inj hr).symm) (fun c hc => (Option.some.inj hc).le) lawful
  obtain ⟨typed, header, hheader, haccepted⟩ :=
    hpython 1000 1030 token ⟨true, ∅⟩ hencode (by decide) (by decide) hfresh
  obtain ⟨typed', header', hheader', haccepted'⟩ :=
    htypescript .ascii 1000 1030 token ⟨true, ∅⟩ hencode (by decide) (by decide) hfresh
  exact ⟨⟨challenge, typed, header, hheader, haccepted⟩,
    accepts, typed', header', hheader', haccepted'⟩

end Demo

end DarkPool
end Arcane
