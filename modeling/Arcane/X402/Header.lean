import Arcane.DarkPool.Client
import Arcane.X402.Signer

/-!
# The payment header of the TypeScript client

`encodeXPaymentHeader` of `scripts/x402/signer.ts`, and the part of `pay` that answers a 402 with
it. `JSON.parse` is taken to return the records of `types.ts`.
-/

namespace Arcane
namespace X402

open Text DarkPool

/-- `JSON.stringify`: a lone surrogate is escaped. -/
def stringifyStyle : Json.Style where
  escapes c := 0xD800 ≤ c.val && c.val ≤ 0xDFFF
  spaced := false
  sortKeys := false

section Challenge

variable {F : Type}

def textOf : Json F → Option Str
  | .str s => some s
  | _ => none

/-- A member of an object that is a text. -/
def textAt (members : List (Str × Json F)) (key : String) : Option Str :=
  (Python.get members key).bind textOf

/-- `requirements.extra` as far as it is read. -/
def extraOf : Json F → Option Extra
  | .obj members => some
    { name := textAt members "name"
      version := textAt members "version"
      verifyingContract := textAt members "verifyingContract" }
  | _ => none

def requirementsOf : Json F → Option PaymentRequirements
  | .obj members => do
    let timeout ← Python.get members "maxTimeoutSeconds"
    return {
      scheme := ← textAt members "scheme"
      network := ← textAt members "network"
      maxAmountRequired := ← textAt members "maxAmountRequired"
      resource := ← textAt members "resource"
      description := ← textAt members "description"
      mimeType := ← textAt members "mimeType"
      payTo := ← textAt members "payTo"
      maxTimeoutSeconds := ← match timeout with
        | .int n => some n
        | _ => none
      asset := ← textAt members "asset"
      extra := ← (Python.get members "extra").bind extraOf }
  | _ => none

/-- `challenge.accepts`. -/
def acceptsOf : Json F → Option (List PaymentRequirements)
  | .obj members =>
    match Python.get members "accepts" with
    | some (.arr accepts) => accepts.mapM requirementsOf
    | _ => none
  | _ => none

end Challenge

section Header

variable {F : Type}

/-- The typed data that `signTypedData` gets. -/
def typedData (domain : ResolvedDomain) (m : TransferWithAuthorization) : TypedData F where
  name := .str domain.name
  version := .str domain.version
  chainId := domain.chainId
  verifyingContract := domain.verifyingContract
  fromAddr := m.fromAddr
  toAddr := .str m.toAddr
  value := m.value
  validAfter := m.validAfter
  validBefore := m.validBefore
  nonce := m.nonce

/-- What a caller of the client sets. -/
structure PaySettings where
  policy : Policy
  chainId : ℤ
  validForSeconds : Option ℤ
  expectedRecipient : Option Str
  maxAmountBaseUnits : Option ℤ

def PaySettings.signArgs (x : PaySettings) (accept : PaymentRequirements) (value now : ℤ)
    (token : Bytes) : SignArgs where
  requirements := accept
  chainId := x.chainId
  value := value
  validForSeconds := x.validForSeconds.getD (max 15 accept.maxTimeoutSeconds)
  nonce := nonceHex token
  now := now
  expectedRecipient := x.expectedRecipient
  maxAmountBaseUnits := x.maxAmountBaseUnits

variable [Json.FloatText F]

/-- `encodeXPaymentHeader`; no surrogate is left in the text, so that it has an encoding. -/
def encodeXPaymentHeader (F : Type) [Json.FloatText F] (auth : PaymentAuthorization) : Str :=
  let m := auth.authorization
  let payload : List (Str × Json F) := paymentContent auth.scheme auth.network auth.signature
    m.fromAddr (.str m.toAddr) m.value m.validAfter m.validBefore m.nonce
  Base64.encode ((utf8 (Json.render stringifyStyle (.obj payload))).getD [])

/-- `pay` from the entries of the 402 to the second request: what was signed, and the header. -/
def payHeader (U : Unicode) (account : EthAccount F) (x : PaySettings) (signer : Signer)
    (accepts : List PaymentRequirements) (now : ℤ) (token : Bytes) :
    Except X402Error (TypedData F × Str) := do
  let accept ← pickAccept U accepts x.policy
  match bigInt accept.maxAmountRequired with
  | none => .error .uncaught
  | some value =>
    let args := x.signArgs accept value now token
    let (domain, message) ← transferMessage U signer.address args
    let typed : TypedData F := typedData domain message
    match account.encodeTypedData typed with
    | none => .error .uncaught
    | some digest =>
      let auth := paymentAuthorization args domain message (signer.sign digest)
      return (typed, encodeXPaymentHeader F auth)

end Header

section Amounts

theorem jsSpace_intText {n : ℤ} : ∀ c ∈ intText n, jsSpace c = false := by
  intro c hc
  have h := sign_of_mem_intText c hc
  simp only [jsSpace, List.mem_cons, List.not_mem_nil, or_false, Bool.or_eq_false_iff,
    decide_eq_false_iff_not, Bool.and_eq_false_imp, decide_eq_true_eq]
  omega

/-- Decimal digits are no literal of another base. -/
theorem radixInteger_natText (n : ℕ) : radixInteger (natText n) = none := by
  have hletter {c : CodePoint} (hc : 48 ≤ c.val ∧ c.val ≤ 57) {x : Char}
      (hx : 57 < x.toNat) : c ≠ ofChar x := by
    rintro rfl
    exact absurd hc.2 (not_le.mpr hx)
  have hdigit : ∀ c ∈ natText n, 48 ≤ c.val ∧ c.val ≤ 57 := digit_of_mem_natText
  match h : natText n with
  | [] => rfl
  | [_] => rfl
  | z :: x :: t =>
    have hx : 48 ≤ x.val ∧ x.val ≤ 57 := hdigit x (by simp [h])
    rw [radixInteger]
    have hne {c : Char} (hc : 57 < c.toNat) : x ≠ ofChar c := hletter hx hc
    simp [hne (c := 'x') (by decide), hne (c := 'X') (by decide), hne (c := 'o') (by decide),
      hne (c := 'O') (by decide), hne (c := 'b') (by decide), hne (c := 'B') (by decide)]

theorem intText_ne_nil (n : ℤ) : intText n ≠ [] := by
  cases n with
  | ofNat n => exact natText_ne_nil n
  | negSucc n => simp [intText, lit]

/-- `BigInt` of the digits of a number. -/
theorem bigInt_intText (n : ℤ) : bigInt (intText n) = some n := by
  have hne : (intText n).isEmpty = false := by simpa using intText_ne_nil n
  rw [bigInt, trim_eq_self jsSpace_intText, hne]
  cases n with
  | ofNat n =>
    simp only [intText, radixInteger_natText]
    cases ht : natText n with
    | nil => exact absurd ht (natText_ne_nil n)
    | cons c t =>
      have hc : 48 ≤ c.val ∧ c.val ≤ 57 := digit_of_mem_natText c (by rw [ht]; simp)
      have hminus : c ≠ ofChar '-' := by
        rintro rfl
        exact absurd hc.1 (by decide)
      have hplus : c ≠ ofChar '+' := by
        rintro rfl
        exact absurd hc.1 (by decide)
      rw [signedInteger, if_neg hminus, if_neg hplus, ← ht, readNat_natText]
      rfl
  | negSucc n =>
    have ht : intText (.negSucc n) = ofChar '-' :: natText (n + 1) := rfl
    have hradix : radixInteger (ofChar '-' :: natText (n + 1)) = none := by
      cases natText (n + 1) with
      | nil => rfl
      | cons x t => rfl
    rw [ht, hradix, signedInteger, if_pos rfl, readNat_natText]
    rfl

end Amounts

end X402
end Arcane
