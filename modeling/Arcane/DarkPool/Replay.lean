import Arcane.DarkPool.Agreement
import Arcane.DarkPool.Effect
import Arcane.DarkPool.TypedData

/-!
# Replayed payments

An authorization is an EIP-712 digest with its signer. The nonce store is keyed by the text of the
nonce, and the digest is one of the nonce with its prefix, so that the store sees two nonces where
one header leaves the prefix out.

* `served_unique`: an authorization is served once, when all requests that are admitted with it
  spell its nonce in one way, and no purge drops a row for which a checked request still waits.
* `binding_of_noCollision`: what this takes of the digests, for those of EIP-712.
* `Demo.replayed`: the same authorization with and without the prefix, served twice.
-/

namespace Arcane
namespace DarkPool

open Text Python Memory Trace

variable {F : Type} {I : Interpreter F} {cfg : Config}

theorem eq_of_find?_cross {α : Type} {l : List α} {p q : α → Bool} {a b : α}
    (ha : l.find? p = some a) (hb : l.find? q = some b) (hpb : p b = true) (hqa : q a = true) :
    a = b := by
  induction l with
  | nil => cases ha
  | cons x l ih =>
    rw [List.find?_cons] at ha hb
    by_cases hx : p x = true
    · rw [hx] at ha
      cases ha
      rw [hqa] at hb
      exact Option.some.inj hb
    · by_cases hx' : q x = true
      · rw [hx'] at hb
        cases hb
        exact absurd hpb hx
      · simp only [hx, hx'] at ha hb
        exact ih ha hb

namespace Parts

theorem matchesFrom_eq_true {typed : CandidateDomain → TypedData F} {sig fromAddr : Str}
    {d : CandidateDomain} : matchesFrom I typed sig fromAddr d = true ↔
      ∃ c, recoverSigner I (typed d) sig = .ok c ∧
        I.unicode.lower c = I.unicode.lower fromAddr := by
  unfold matchesFrom
  split <;> simp_all

variable {q q' : Parts F} {recovered recovered' : Str} {d d' : CandidateDomain} {digest : Bytes}

/-- A payment whose digest is also that for the domain `d'` is signed for `d'` as well. -/
theorem Signed.matches_of_digest (h : q.Signed I cfg recovered d)
    (hdigest : I.account.encodeTypedData (q.typed cfg d) = some digest)
    (hdigest' : I.account.encodeTypedData (q.typed cfg d') = some digest) :
    matchesFrom I (q.typed cfg) q.sig q.fromAddr d' = true := by
  obtain ⟨c, hc, hlower⟩ := matchesFrom_eq_true.mp (List.find?_some h.first)
  obtain ⟨digest₁, hrec⟩ := recoverSigner_eq_ok.mp hc
  obtain rfl := Option.some.inj (hrec.encode.symm.trans hdigest)
  exact matchesFrom_eq_true.mpr
    ⟨c, recoverSigner_eq_ok.mpr ⟨_, hrec.wellFormed, hdigest', hrec.recover, hrec.ne_zero⟩, hlower⟩

/-- Payments that have one digest, each for the domain of either, are accepted for one domain. -/
theorem Signed.domain_eq (h : q.Signed I cfg recovered d) (h' : q'.Signed I cfg recovered' d')
    (hdigest : ∀ x ∈ [d, d'], I.account.encodeTypedData (q.typed cfg x) = some digest)
    (hdigest' : ∀ x ∈ [d, d'], I.account.encodeTypedData (q'.typed cfg x) = some digest) :
    d = d' :=
  eq_of_find?_cross h.first h'.first
    (h.matches_of_digest (hdigest d (by simp)) (hdigest d' (by simp)))
    (h'.matches_of_digest (hdigest' d' (by simp)) (hdigest' d (by simp)))

end Parts

/-- The same digest and the same signer. -/
def SameAuthorization (I : Interpreter F) (v v' : Valid F) : Prop :=
  ∃ digest, I.account.encodeTypedData v.typed = some digest ∧
    I.account.encodeTypedData v'.typed = some digest ∧ v.signer = v'.signer

theorem SameAuthorization.symm {v v' : Valid F} (h : SameAuthorization I v v') :
    SameAuthorization I v' v := by
  obtain ⟨digest, hd, hd', hsigner⟩ := h
  exact ⟨digest, hd', hd, hsigner.symm⟩

variable [Json.FloatText F]

/-- What the header of the request is read as. -/
def Parts.ReadFrom (I : Interpreter F) (cfg : Config) (r : Request F) (q : Parts F) : Prop :=
  ∃ (raw : Str) (members : List (Str × Json F)), r.header = some raw ∧
    parsePaymentHeader raw = .ok members ∧ q.Reads I cfg members

theorem Parts.ReadFrom.unique {r : Request F} {q q' : Parts F} (h : q.ReadFrom I cfg r)
    (h' : q'.ReadFrom I cfg r) : q = q' := by
  obtain ⟨raw, members, hheader, hparse, hreads⟩ := h
  obtain ⟨raw', members', hheader', hparse', hreads'⟩ := h'
  obtain rfl := Option.some.inj (hheader.symm.trans hheader')
  obtain rfl := Except.ok.inj (hparse.symm.trans hparse')
  exact hreads.unique hreads'

namespace App

variable {E : Type} {A : App F E} {s s₀ s' : State F E} {e : Event F}
  {tr tr' : List (Trace.Step (State F E) (Event F))} {r r' : Request F} {v v' : Valid F}

/-- A request of the run passed all checks of `_validate_payment`, with the result `v`. -/
def Admitted (A : App F E) (tr : List (Trace.Step (State F E) (Event F))) (r : Request F)
    (v : Valid F) : Prop :=
  ∃ st ∈ tr, ∃ (i : ℕ) (now : ℤ) (monotonic : Double F) (p : Paid F E),
    st.ev = .read i now monotonic ∧ st.pre.requests[i]? = some (.reading r) ∧
    A.admission { st.pre with clock := now } now r = .ok p ∧ p.valid = v

/-- The digests of the payments that are admitted bind what they hash: those of one authorization
have one end of their validity, and one of the two has the same digest in the domain of the
other. -/
structure Binding (A : App F E) (tr : List (Trace.Step (State F E) (Event F))) : Prop where
  validBefore : ∀ r r' v v', Admitted A tr r v → Admitted A tr r' v' →
    SameAuthorization A.interpreter v v' → v.typed.validBefore = v'.typed.validBefore
  domain : ∀ r r' v v' digest, Admitted A tr r v → Admitted A tr r' v' →
    A.interpreter.account.encodeTypedData v.typed = some digest →
    A.interpreter.account.encodeTypedData v'.typed = some digest →
    A.interpreter.account.encodeTypedData (v.typed.inDomain v'.typed) = some digest

/-- The requests that were admitted with one authorization spell its nonce in one way, but for the
case of its digits. -/
def OneSpelling (A : App F E) (tr : List (Trace.Step (State F E) (Event F))) : Prop :=
  ∀ (r r' : Request F) (v v' : Valid F) (q q' : Parts F), Admitted A tr r v → Admitted A tr r' v' →
    SameAuthorization A.interpreter v v' → q.ReadFrom A.interpreter A.config r →
    q'.ReadFrom A.interpreter A.config r' →
    A.interpreter.unicode.lower q.nonce = A.interpreter.unicode.lower q'.nonce

/-- A purge does not drop a row for which a request waits that was found to be no replay. -/
def NoGap (A : App F E) (st : Trace.Step (State F E) (Event F)) : Prop :=
  ∀ now, st.ev = .purge now → ∀ p, Pending st.pre p → ∀ expiresAt,
    st.pre.store.rows.get? (p.valid.key A.interpreter A.config) = some expiresAt → now < expiresAt

theorem Admitted.append (h : Admitted A tr r v) : Admitted A (tr ++ tr') r v := by
  obtain ⟨st, hst, h⟩ := h
  exact ⟨st, List.mem_append_left _ hst, h⟩

theorem Binding.of_append (h : Binding A (tr ++ tr')) : Binding A tr where
  validBefore r r' v v' hv hv' := h.validBefore r r' v v' hv.append hv'.append
  domain r r' v v' digest hv hv' := h.domain r r' v v' digest hv.append hv'.append

theorem OneSpelling.of_append (h : OneSpelling A (tr ++ tr')) : OneSpelling A tr :=
  fun r r' v v' q q' hv hv' => h r r' v v' q q' hv.append hv'.append

/-- What an admitted request was read as, and the domain that it is signed for. -/
theorem Admitted.parts (h : Admitted A tr r v) : ∃ (q : Parts F) (recovered : Str)
    (d : CandidateDomain), q.ReadFrom A.interpreter A.config r ∧
      q.Signed A.interpreter A.config recovered d ∧
        v = q.valid A.interpreter A.config recovered d := by
  obtain ⟨st, -, i, now, monotonic, p, -, -, hadmission, rfl⟩ := h
  obtain ⟨raw, members, hheader, hparse, hvalid⟩ := payment_eq_ok (admission_eq_ok hadmission).2
  obtain ⟨q, recovered, d, hreads, -, hsigned, hv⟩ := Parts.validateSignature_eq_ok.mp hvalid
  exact ⟨q, recovered, d, ⟨raw, members, hheader, hparse, hreads⟩, hsigned, hv⟩

theorem Admitted.validBefore (h : Admitted A tr r v) : v.typed.validBefore = v.validBefore := by
  obtain ⟨q, recovered, d, -, -, rfl⟩ := h.parts
  rfl

/-- A request is admitted with one payment. -/
theorem Admitted.typed_eq (h : Admitted A tr r v) (h' : Admitted A tr r v') :
    v.typed = v'.typed := by
  obtain ⟨q, recovered, d, hread, hsigned, rfl⟩ := h.parts
  obtain ⟨q', recovered', d', hread', hsigned', rfl⟩ := h'.parts
  obtain rfl := hread.unique hread'
  obtain rfl := Option.some.inj (hsigned.first.symm.trans hsigned'.first)
  rfl

/-- Where the digest is that of EIP-712, it is enough that the hash function does not collide on
what the payments of one digest hash. -/
theorem binding_of_noCollision
    (hdigest : ∀ t, A.interpreter.account.encodeTypedData t = t.digest)
    (hhash : ∀ r r' v v', Admitted A tr r v → Admitted A tr r' v' →
      v.typed.digest = v'.typed.digest → v.typed.NoCollision v'.typed) : Binding A tr where
  validBefore r r' v v' hv hv' hsame := by
    obtain ⟨digest, hd, hd', -⟩ := hsame
    rw [hdigest] at hd hd'
    exact (TypedData.digest_binds (hhash r r' v v' hv hv' (hd.trans hd'.symm)) hd hd').1
  domain r r' v v' digest hv hv' hd hd' := by
    rw [hdigest] at hd hd' ⊢
    exact (TypedData.digest_binds (hhash r r' v v' hv hv' (hd.trans hd'.symm)) hd hd').2

/-- Only one request is admitted. -/
theorem oneSpelling_of_single (h : ∀ r' v', Admitted A tr r' v' → r' = r) : OneSpelling A tr := by
  intro r₁ r₂ v₁ v₂ q₁ q₂ h₁ h₂ _ hread₁ hread₂
  obtain rfl := h r₁ v₁ h₁
  obtain rfl := h r₂ v₂ h₂
  rw [hread₁.unique hread₂]

theorem binding_of_single (hdigest : ∀ t, A.interpreter.account.encodeTypedData t = t.digest)
    (h : ∀ r' v', Admitted A tr r' v' → r' = r) : Binding A tr := by
  refine binding_of_noCollision hdigest fun r₁ r₂ v₁ v₂ h₁ h₂ _ => ?_
  obtain rfl := h r₁ v₁ h₁
  obtain rfl := h r₂ v₂ h₂
  rw [h₁.typed_eq h₂]
  exact .refl _

/-- One authorization has one row in the nonce store. -/
theorem key_eq (hA : Binding A tr) (hspell : OneSpelling A tr) (h : Admitted A tr r v)
    (h' : Admitted A tr r' v') (hv : SameAuthorization A.interpreter v v') :
    v.key A.interpreter A.config = v'.key A.interpreter A.config := by
  obtain ⟨q, recovered, d, hread, hsigned, hq⟩ := h.parts
  obtain ⟨q', recovered', d', hread', hsigned', hq'⟩ := h'.parts
  have hnonce := hspell r r' v v' q q' h h' hv hread hread'
  obtain ⟨digest, hdigest, hdigest', hsigner⟩ := hv
  have hmixed := hA.domain r r' v v' digest h h' hdigest hdigest'
  have hmixed' := hA.domain r' r v' v digest h' h hdigest' hdigest
  subst hq hq'
  obtain rfl := hsigned.domain_eq hsigned' (by simpa using ⟨hdigest, hmixed⟩)
    (by simpa using ⟨hmixed', hdigest'⟩)
  simp only [Valid.key, Parts.valid] at hsigner ⊢
  rw [hsigner, hnonce]

/-- A request that waits for the limiter was admitted. -/
theorem admitted_of_pending (h : Run A.Step s₀ tr s) (h₀ : s₀.requests = []) :
    ∀ p, Pending s p → ∃ r, Admitted A tr r p.valid := by
  apply h.history (P := fun tr s => ∀ p, Pending s p → ∃ r, Admitted A tr r p.valid)
  · simp [Pending, h₀]
  · rintro tr s e s' - hpending hstep p hp
    rcases pending_of_effect (effect hstep) hp with
      hp | ⟨i, now, monotonic, r, rfl, hr, -, hadmission⟩
    · obtain ⟨r, hr⟩ := hpending p hp
      exact ⟨r, hr.append⟩
    · exact ⟨r, _, List.mem_append_right _ (List.mem_singleton_self _), i, now, monotonic, p, rfl,
        hr, hadmission, rfl⟩

/-- An authorization that was served cannot be served again: its row is in the store, or it has
expired and no request waits with it. -/
def Closed (A : App F E) (s : State F E) (v : Valid F) : Prop :=
  s.store.rows.get? (v.key A.interpreter A.config) = some v.validBefore ∨
    v.validBefore ≤ s.clock ∧ ∀ p, Pending s p → ¬ SameAuthorization A.interpreter p.valid v

theorem closed_step (h : Effect A s e s') (hgap : NoGap A ⟨s, e, s'⟩) (hv : Closed A s v)
    (hkey : ∀ p, Pending s p → SameAuthorization A.interpreter p.valid v →
      p.valid.key A.interpreter A.config = v.key A.interpreter A.config)
    (hend : ∀ p, Pending s' p → SameAuthorization A.interpreter p.valid v →
      p.valid.validBefore = v.validBefore) : Closed A s' v := by
  rcases hv with hrow | ⟨hclock, hpending⟩
  · rcases store_of_effect h with hs | ⟨p, hnone, hs⟩ | ⟨now, rfl, hnow, hrequests, hs⟩
    · exact .inl (hs ▸ hrow)
    · refine .inl ?_
      have hne : v.key A.interpreter A.config ≠ p.valid.key A.interpreter A.config := by
        intro heq
        rw [heq, hnone] at hrow
        cases hrow
      rw [hs, Dict.get?_set, if_neg hne, hrow]
    · by_cases hexpired : v.validBefore ≤ now
      · refine .inr ⟨hnow ▸ hexpired, fun p hp hsame => ?_⟩
        have hp' : Pending s p := by
          obtain ⟨asked, hmem⟩ := hp
          exact ⟨asked, hrequests ▸ hmem⟩
        have hlt := hgap now rfl p hp' v.validBefore (by rw [hkey p hp' hsame]; exact hrow)
        exact absurd hexpired (not_le.mpr hlt)
      · refine .inl ?_
        rw [hs, Dict.get?_filter, hrow]
        simp [hexpired]
  · refine .inr ⟨hclock.trans (clock_le h), fun p hp hsame => ?_⟩
    rcases pending_of_effect h hp with hp' | ⟨i, now, monotonic, r, -, -, hle, hadmission⟩
    · exact hpending p hp' hsame
    · have hlt := lt_validBefore_of_admission hadmission
      have heq := hend p hp hsame
      omega

omit [Json.FloatText F] in
theorem pending_of_commits {i : ℕ} {p : Paid F E} (h : Commits A s i p) : Pending s p := by
  obtain ⟨asked, hstage, -⟩ := h.stage
  exact ⟨asked, List.mem_of_getElem? hstage⟩

/-- What was served stays closed. -/
theorem closed_run (h : Run A.Step s₀ tr s) (h₀ : s₀.requests = []) (hA : Binding A tr)
    (hspell : OneSpelling A tr) (hgap : ∀ st ∈ tr, NoGap A st) :
    ∀ st ∈ tr, ∀ p, Serves st p → (∃ r, Admitted A tr r p.valid) ∧ Closed A s p.valid := by
  revert hA hspell hgap
  apply h.history (P := fun tr s => Binding A tr → OneSpelling A tr → (∀ st ∈ tr, NoGap A st) →
    ∀ st ∈ tr, ∀ p, Serves st p → (∃ r, Admitted A tr r p.valid) ∧ Closed A s p.valid)
  · simp
  · intro tr s e s' hrun ih hstep hA hspell hgap st hst p hp
    have heffect := effect hstep
    have hpending := admitted_of_pending hrun h₀
    rcases List.mem_append.mp hst with hst | hst
    · obtain ⟨⟨r, hr⟩, hclosed⟩ := ih hA.of_append hspell.of_append
        (fun st hst => hgap st (List.mem_append_left _ hst)) st hst p hp
      refine ⟨⟨r, hr.append⟩, closed_step heffect (hgap _ (by simp)) hclosed ?_ ?_⟩
      · intro p' hp' hsame
        obtain ⟨r', hr'⟩ := hpending p' hp'
        exact key_eq hA.of_append hspell.of_append hr' hr hsame
      · intro p' hp' hsame
        obtain ⟨r', hr'⟩ := admitted_of_pending (hrun.snoc e hstep) h₀ p' hp'
        rw [← hr'.validBefore, ← hr.validBefore]
        exact hA.validBefore r' r _ _ hr' hr.append hsame
    · rw [List.mem_singleton] at hst
      subst hst
      obtain ⟨i, now, limiter, hcommits, -, rfl⟩ := commit_of_serves heffect hp
      obtain ⟨r, hr⟩ := hpending p (pending_of_commits hcommits)
      refine ⟨⟨r, hr.append⟩, .inl ?_⟩
      simp [served, Dict.get?_set]

/-- A later step does not serve the same authorization. -/
theorem not_served_again (h : Run A.Step s₀ tr s) (h₀ : s₀.requests = []) (hA : Binding A tr)
    (hspell : OneSpelling A tr) (hgap : ∀ st ∈ tr, NoGap A st) {k l : ℕ}
    {st st' : Trace.Step (State F E) (Event F)} (hk : tr[k]? = some st) (hl : tr[l]? = some st')
    {p p' : Paid F E} (hp : Serves st p) (hp' : Serves st' p')
    (hsame : SameAuthorization A.interpreter p'.valid p.valid) : ¬ k < l := by
  intro hkl
  have hcut := cut hl
  rw [hcut] at h hA hspell hgap
  obtain ⟨hpre, hstep, -⟩ := h.split
  have hst : st ∈ tr.take l := List.mem_of_getElem? (by rw [List.getElem?_take_of_lt hkl, hk])
  obtain ⟨⟨r, hr⟩, hclosed⟩ := closed_run hpre h₀ hA.of_append hspell.of_append
    (fun st hst => hgap st (List.mem_append_left _ hst)) st hst p hp
  obtain ⟨i, now, limiter, hcommits, hnone, -⟩ := commit_of_serves (effect hstep) hp'
  have hpending := pending_of_commits hcommits
  rcases hclosed with hrow | ⟨-, hnot⟩
  · obtain ⟨r', hr'⟩ := admitted_of_pending hpre h₀ p' hpending
    rw [← key_eq hA.of_append hspell.of_append hr' hr hsame, hnone] at hrow
    cases hrow
  · exact hnot p' hpending hsame

/-- An authorization is served once. -/
theorem served_unique (h : Run A.Step s₀ tr s) (h₀ : s₀.requests = []) (hA : Binding A tr)
    (hspell : OneSpelling A tr) (hgap : ∀ st ∈ tr, NoGap A st) {k l : ℕ}
    {st st' : Trace.Step (State F E) (Event F)} (hk : tr[k]? = some st) (hl : tr[l]? = some st')
    {p p' : Paid F E} (hp : Serves st p) (hp' : Serves st' p')
    (hsame : SameAuthorization A.interpreter p.valid p'.valid) : k = l := by
  have hlt := not_served_again h h₀ hA hspell hgap hk hl hp hp' hsame.symm
  have hgt := not_served_again h h₀ hA hspell hgap hl hk hp' hp hsame
  omega

end App

namespace Demo

open Memory.MemoryService.Demo App

def queryBody : Json Flt → Except Str (QueryBody Flt)
  | .obj [(_, .arr [.float x]), (_, .int 1)] => .ok ⟨[x], 1, by decide, by decide⟩
  | _ => .error (lit "invalid")

def addBody : Json Flt → Except Str (AddBody Flt)
  | .obj [(_, .str [c]), (_, .arr [.float x]), (_, .obj [(k, .float y)])] => .ok
    { traceId := [c]
      traceId_ne_nil := by simp
      length_traceId := by simp
      vec := [x]
      payload := [(k, .float y)]
      keyed_payload := by simp [Json.Keyed, Json.All, Json.AllMembers, Json.keyedHere]
      kind := lit "working" }
  | _ => .error (lit "invalid")

def adviceBody : Json Flt → Option (Registry.AdviceBody Flt)
  | .obj [(_, .str trace), (_, .arr [.float x]), (_, .str traceId), (_, .str kind)] =>
    some ⟨trace, some [x], some traceId, kind⟩
  | _ => none

def app : App Flt Flt where
  numerics := MemoryService.Demo.numerics
  interpreter := interpreter
  config := config
  queryBody := queryBody
  addBody := addBody
  repr s := s
  addError := []
  fractional _ := false
  packages := ⟨adviceBody, fun _ => none, id⟩

def begin : State Flt Flt where
  clock := 0
  store := ⟨true, ∅⟩
  limiter := ⟨60, .finite .one, ∅⟩
  memory := MemoryService.Demo.start
  requests := []

/-- The digest of the buyer's authorization with the nonce. -/
def digest (nonce : Str) : Bytes :=
  (account.encodeTypedData (directTypedData config buyer 0 2000 nonce)).getD []

def request (route : Route) (body : Json Flt) (nonce : Str) : Request Flt where
  route := route
  resource := lit "/pool"
  body := some body
  header := some (directHeader dumpsStyle Flt config signer (digest nonce) 0 2000 nonce)

/-- What is known of an accepted payment of the buyer. -/
structure IsPaid (nonce : Str) (v : Valid Flt) : Prop where
  key : v.key interpreter config = directKey interpreter config signer nonce
  validBefore : v.validBefore = 2000
  signer : v.signer = interpreter.unicode.lower buyer
  encode : account.encodeTypedData v.typed = some (digest nonce)

/-- The payment of a request of the buyer is accepted. -/
theorem payment_request (route : Route) (body : Json Flt) {nonce : Str} (hascii : isAscii nonce)
    (hencode : (account.encodeTypedData (directTypedData config buyer 0 2000 nonce)).isSome)
    {s : State Flt Flt} (hfresh : s.store.has (directKey interpreter config signer nonce) =
      some false) :
    ∃ v, app.payment s 1000 (request route body nonce) = .ok v ∧ IsPaid nonce v := by
  have hdigest : account.encodeTypedData (directTypedData config buyer 0 2000 nonce) =
      some (digest nonce) := by
    obtain ⟨d, hd⟩ := Option.isSome_iff_exists.mp hencode
    rw [digest, hd, Option.getD_some]
  have hnetwork : ∀ c ∈ config.network, IsScalar c := fun c hc =>
    Json.isScalar_of_lt (Json.printable_lit (by decide) c hc).2
  have hpayTo : ∀ c ∈ config.paymentRecipient, IsScalar c := fun c hc =>
    Json.isScalar_of_lt (Json.printable_lit (by decide) c hc).2
  have hscalar : Json.Scalar (F := Flt)
      (.obj (directContent config signer (digest nonce) 0 2000 nonce)) :=
    scalar_directContent lawful hascii ⟨hnetwork, hpayTo⟩
  obtain ⟨v, hvalid, hkey, hbefore, hsigner, hencode'⟩ := validatePayment_directContent
    unsigned lawful hdigest (show (0 : ℤ) ≤ 1000 by decide) (show (1000 : ℤ) < 2000 by decide)
    hfresh
  refine ⟨v, payment_of_header rfl (parsePaymentHeader_encode dumpsStyle rfl
    (Json.plain_iff.mpr ⟨hscalar, keyed_directContent⟩)) hvalid, hkey, hbefore, hsigner, hencode'⟩

def queryJson : Json Flt :=
  .obj [(lit "query_vec", .arr [.float (.finite .one)]), (lit "k", .int 1)]

def bareNonce : Str := hex token

/-- A query whose header has the nonce without its prefix. -/
def bare : Request Flt := request .query queryJson bareNonce

/-- What a query of the buyer is admitted as. -/
def paidQuery (v : Valid Flt) : Paid Flt Flt := ⟨lit "/pool", v, .query [.one] 1⟩

/-- A request that is paid with a fresh nonce is served. -/
theorem run_paid {route : Route} {body : Json Flt} {call : Call Flt Flt} (nonce : Str)
    (s : State Flt Flt) (asked : Double Flt) (hascii : isAscii nonce)
    (hencode : (account.encodeTypedData (directTypedData config buyer 0 2000 nonce)).isSome)
    (hclock : s.clock ≤ 1000)
    (hcall : app.requestCall s (request route body nonce) = .ok call)
    (hfree : Call.taken s call = none)
    (hfresh : s.store.has (directKey interpreter config signer nonce) = some false)
    (hadd : (s.store.add (directKey interpreter config signer nonce) 2000).isSome)
    (htoken : (s.limiter.consume app.numerics (interpreter.unicode.lower buyer) 1 asked).2 = true) :
    ∃ v, IsPaid nonce v ∧ Run app.Step s
      (serviceSteps app s 1000 (request route body nonce) ⟨lit "/pool", v, call⟩ asked now)
      (app.serviced s 1000 ⟨lit "/pool", v, call⟩ asked now) := by
  obtain ⟨v, hpayment, hv⟩ := payment_request route body hascii hencode hfresh
  refine ⟨v, hv, run_service hclock ?_ ?_ hfree ?_⟩
  · simp only [admission, hcall, hpayment]
    rfl
  · rw [hv.signer]
    exact htoken
  · obtain ⟨store, hstore⟩ := Option.isSome_iff_exists.mp hadd
    refine ⟨store, commitNonce_of_fresh ?_ ?_⟩
    · exact (congrArg s.store.has hv.key).trans hfresh
    · rw [← hstore, ← hv.validBefore, ← hv.key]
      rfl

theorem requestCall_query {s : State Flt Flt} (hdim : s.memory.dim = 1) (nonce : Str) :
    app.requestCall s (request .query queryJson nonce) = .ok (.query [.one] 1) := by
  have hbody : app.queryBody queryJson = .ok ⟨[.finite .one], 1, by decide, by decide⟩ := rfl
  simp only [requestCall, request, queryCall, hbody, List.length_singleton, hdim, ne_eq,
    not_true_eq_false, if_false]
  rfl

/-- A query of an empty memory is answered. -/
theorem answer_query {s : State Flt Flt} (hs : s.memory = MemoryService.Demo.start)
    (v : Valid Flt) :
    (app.answer s now (paidQuery v)).2.status = 200 := by
  have h : app.answer s now (paidQuery v) = app.answerQuery s [.one] 1 := rfl
  have hquery : (app.answerQuery begin [.one] 1).2.status = 200 := by decide
  rw [h]
  simp only [answerQuery, hs] at hquery ⊢
  exact hquery

/-- The store with the row of the bare nonce. -/
def oneRow : NonceStore := ⟨true, Dict.set ∅ (directKey interpreter config signer bareNonce) 2000⟩

/-- What the first paid request leaves in the store and in the limiter. -/
theorem store_serviced {v : Valid Flt} (hv : IsPaid bareNonce v) (call : Call Flt Flt) :
    (app.serviced begin 1000 ⟨lit "/pool", v, call⟩ (.finite .zero) now).store = oneRow := by
  have h : (app.serviced begin 1000 ⟨lit "/pool", v, call⟩ (.finite .zero) now).store =
      ⟨true, Dict.set ∅ (v.key interpreter config) v.validBefore⟩ := rfl
  rw [h, hv.key, hv.validBefore, oneRow]

theorem limiter_serviced {v : Valid Flt} (hv : IsPaid bareNonce v) (call : Call Flt Flt) :
    (app.serviced begin 1000 ⟨lit "/pool", v, call⟩ (.finite .zero) now).limiter =
      (begin.limiter.consume app.numerics (interpreter.unicode.lower buyer) 1
        (.finite .zero)).1 := by
  rw [← hv.signer]
  rfl

/-- The first query, with the bare nonce. -/
theorem run_bare : ∃ v, IsPaid bareNonce v ∧ Run app.Step begin
    (serviceSteps app begin 1000 bare (paidQuery v) (.finite .zero) now)
    (app.serviced begin 1000 (paidQuery v) (.finite .zero) now) :=
  run_paid bareNonce begin (.finite .zero) (isAscii_hex token) (by decide +kernel) (by decide)
    (requestCall_query rfl _) rfl (by decide) (by decide) (by decide)

/-- The authorization is served with its nonce in either spelling. -/
theorem replayed : ∃ tr s, Run app.Step begin tr s ∧ ∃ (k l : ℕ)
    (st st' : Trace.Step (State Flt Flt) (Event Flt)) (p p' : Paid Flt Flt),
      tr[k]? = some st ∧ tr[l]? = some st' ∧ Serves st p ∧ Serves st' p' ∧
      SameAuthorization interpreter p.valid p'.valid ∧ k ≠ l := by
  obtain ⟨v, hv, hrun⟩ := run_bare
  let s₁ := app.serviced begin 1000 (paidQuery v) (.finite .zero) now
  have hstore : s₁.store = oneRow := store_serviced hv _
  have hlimiter : s₁.limiter =
      (begin.limiter.consume app.numerics (interpreter.unicode.lower buyer) 1
        (.finite .zero)).1 := limiter_serviced hv _
  obtain ⟨v', hv', hrun'⟩ := run_paid (nonceHex token) s₁ (.finite .one) isAscii_nonceHex
    (by decide +kernel) (le_refl _) (requestCall_query rfl _) rfl (by rw [hstore]; decide +kernel)
    (by rw [hstore]; decide) (by rw [hlimiter]; decide)
  refine ⟨_, _, hrun.append hrun', 2, 5, _, _, paidQuery v, paidQuery v', rfl, rfl,
    serves_service (answer_query rfl v), serves_service (answer_query rfl v'), ?_, by decide⟩
  have hprefixed : prefixed bareNonce = prefixed (nonceHex token) := by decide
  have hdigest : digest (nonceHex token) = digest bareNonce := by
    simp only [digest, directTypedData, buildTypedData, hprefixed]
  exact ⟨digest bareNonce, hv.encode, hdigest ▸ hv'.encode, hv.signer.trans hv'.signer.symm⟩

/-- A query that comes again is not served again. -/
theorem served_in_turn : ∃ tr s v, Run app.Step begin tr s ∧
    tr[0]?.map (·.ev) = some (.arrive bare) ∧ tr[3]?.map (·.ev) = some (.arrive bare) ∧
    (∃ st, tr[2]? = some st ∧ Serves st (paidQuery v)) ∧
    ∀ (k : ℕ) (st : Trace.Step (State Flt Flt) (Event Flt)) (p : Paid Flt Flt), tr[k]? = some st →
      Serves st p → SameAuthorization interpreter v p.valid → 2 = k := by
  obtain ⟨v, hv, hrun⟩ := run_bare
  let s₁ := app.serviced begin 1000 (paidQuery v) (.finite .zero) now
  let s₂ : State Flt Flt := { s₁ with requests := s₁.requests ++ [.reading bare] }
  have hread : app.Step s₂ (.read 1 1000 (.finite .one)) (app.read s₂ 1 1000 (.finite .one) bare) :=
    rfl
  have harrive : app.Step s₁ (.arrive bare) s₂ := rfl
  let tr := serviceSteps app begin 1000 bare (paidQuery v) (.finite .zero) now ++
    [⟨s₁, .arrive bare, s₂⟩] ++
    [⟨s₂, .read 1 1000 (.finite .one), app.read s₂ 1 1000 (.finite .one) bare⟩]
  have hrun' : Run app.Step begin tr _ := (hrun.snoc _ harrive).snoc _ hread
  have hserves : Serves ⟨admitted begin 1000 (paidQuery v) (.finite .zero),
      .consume 0 now (.finite .zero), s₁⟩ (paidQuery v) := serves_service (answer_query rfl v)
  refine ⟨_, _, v, hrun', rfl, rfl, ⟨_, rfl, hserves⟩, fun k st p hk hp hsame => ?_⟩
  have hbare : ∀ r v', Admitted app tr r v' → r = bare := by
    rintro r v' ⟨st, hst, i, now, monotonic, p, hev, hr, -⟩
    simp only [tr, serviceSteps, List.cons_append, List.nil_append, List.mem_cons,
      List.not_mem_nil, or_false] at hst
    rcases hst with rfl | rfl | rfl | rfl | rfl
    · cases hev
    · cases hev
      exact (Stage.reading.inj (Option.some.inj hr)).symm
    · cases hev
    · cases hev
    · cases hev
      exact (Stage.reading.inj (Option.some.inj hr)).symm
  refine served_unique hrun' rfl (binding_of_single (fun _ => rfl) hbare)
    (oneSpelling_of_single hbare) ?_ rfl hk hserves hp hsame
  intro st hst t hev
  simp only [tr, serviceSteps, List.cons_append, List.nil_append, List.mem_cons, List.not_mem_nil,
    or_false] at hst
  rcases hst with rfl | rfl | rfl | rfl | rfl <;> cases hev

end Demo

end DarkPool
end Arcane
