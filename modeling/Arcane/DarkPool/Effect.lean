import Arcane.DarkPool.Server
import Arcane.DarkPool.Signature
import Arcane.Memory.History

/-!
# What a step of the server can do

* `Effect`: the steps. A 200 comes from a `commit` only, and no other step of a request changes the
  nonce store.
* `stage_of_effect`: how the stage of a request changes.
-/

namespace Arcane
namespace DarkPool

open Text Python Memory Registry

section Replies

variable {F : Type} [Json.FloatText F]

@[simp]
theorem status_internalError : internalError.status = 500 := rfl

theorem status_jsonResponse (status : ℕ) (content : Json F) (retryAfter : Option Str) :
    (jsonResponse status content retryAfter).status = status ∨
      (jsonResponse status content retryAfter).status = 500 := by
  unfold jsonResponse
  split
  · exact .inl rfl
  · exact .inr rfl

theorem status_jsonResponse_ne {status : ℕ} (h : status ≠ 200) (content : Json F)
    (retryAfter : Option Str) : (jsonResponse status content retryAfter).status ≠ 200 := by
  rcases status_jsonResponse status content retryAfter with hs | hs
  · rwa [hs]
  · rw [hs]
    decide

theorem rendered_isSome {content : Json F} :
    (rendered content).isSome ↔ Json.Finite content ∧ Json.Scalar content := by
  rw [← Json.scalar_render_iff responseStyle fun _ => rfl, ← utf8_isSome_iff, rendered]
  by_cases h : Json.Finite content <;> simp [h]

/-- A 200 is one whose content can be rendered. -/
theorem status_jsonResponse_ok {content : Json F} :
    (jsonResponse 200 content none).status = 200 ↔ Json.Finite content ∧ Json.Scalar content := by
  rw [← rendered_isSome, jsonResponse]
  split
  · next b hb => simp [hb]
  · next hb => simp [hb]

end Replies

section Store

variable {F : Type} {I : Interpreter F} {cfg : Config} {store store' : NonceStore} {v : Valid F}

/-- A committed nonce was not there. -/
theorem commitNonce_eq_ok (h : commitNonce I cfg store v = .ok store') :
    store.rows.get? (v.key I cfg) = none ∧
      store' = { store with rows := store.rows.set (v.key I cfg) v.validBefore } := by
  unfold commitNonce at h
  split at h
  · cases h
  · cases h
  · next hhas =>
    have hnone : store.rows.get? (v.key I cfg) = none := by
      unfold NonceStore.has at hhas
      split at hhas
      · cases hhas
      · simpa using hhas
    refine ⟨hnone, ?_⟩
    split at h
    · cases h
    · next hadd =>
      unfold NonceStore.add at hadd
      rw [hnone] at hadd
      split at hadd
      · cases hadd
      · cases hadd
        exact (Except.ok.inj h).symm

/-- A fresh nonce is committed, when the store takes its row. -/
theorem commitNonce_of_fresh (hhas : store.has (v.key I cfg) = some false)
    (hadd : store.add (v.key I cfg) v.validBefore = some store') :
    commitNonce I cfg store v = .ok store' := by
  simp only [commitNonce, hhas, hadd]

/-- An accepted payment passed every check on it. -/
theorem validatePayment_eq_ok {now : ℤ} {members : List (Str × Json F)}
    (h : validatePayment I cfg now store members = .ok v) :
    validateSignature I cfg now members = .ok v := by
  unfold validatePayment at h
  obtain ⟨w, hw, h⟩ := bind_eq_ok.mp h
  split at h
  · cases h
  · cases h
  · rwa [← Except.ok.inj h]

end Store

namespace App

variable {F E : Type} [Json.FloatText F] {A : App F E} {s s' : State F E} {e : Event F}

/-- The request `i` gets its token, and its nonce goes into the store. -/
structure Commits (A : App F E) (s : State F E) (i : ℕ) (p : Paid F E) : Prop where
  stage : ∃ asked, s.requests[i]? = some (.consuming p asked) ∧
    (s.limiter.consume A.numerics p.valid.signer 1 asked).2 = true
  free : Call.taken s p.call = none
  store : ∃ store, commitNonce A.interpreter A.config s.store p.valid = .ok store

/-- The state after a commit, but for the limiter. -/
def served (A : App F E) (s : State F E) (limiter : RateLimiter F) (i : ℕ) (now : Double F)
    (p : Paid F E) : State F E where
  clock := s.clock
  store := { s.store with
    rows := s.store.rows.set (p.valid.key A.interpreter A.config) p.valid.validBefore }
  limiter := limiter
  memory := (A.answer s now p).1
  requests := s.requests.set i (.answered (A.answer s now p).2)

/-- What a step can do. -/
inductive Effect (A : App F E) (s : State F E) : Event F → State F E → Prop
  | arrive (r : Request F) :
    Effect A s (.arrive r) { s with requests := s.requests ++ [.reading r] }
  | turnAway {i : ℕ} {now : ℤ} {monotonic : Double F} {r : Request F} {reply : Reply} :
    s.requests[i]? = some (.reading r) → s.clock ≤ now → reply.status ≠ 200 →
    Effect A s (.read i now monotonic)
      { s with clock := now, requests := s.requests.set i (.answered reply) }
  | accept {i : ℕ} {now : ℤ} {monotonic : Double F} {r : Request F} {p : Paid F E} :
    s.requests[i]? = some (.reading r) → s.clock ≤ now →
    A.admission { s with clock := now } now r = .ok p →
    Effect A s (.read i now monotonic)
      { s with clock := now, requests := s.requests.set i (.consuming p monotonic) }
  | limit {i : ℕ} {now monotonic asked : Double F} {p : Paid F E} {limiter : RateLimiter F} :
    s.requests[i]? = some (.consuming p asked) →
    Effect A s (.consume i now monotonic)
      { s with limiter, requests := s.requests.set i (.waiting p monotonic) }
  | refuse {i : ℕ} {now monotonic asked : Double F} {p : Paid F E} {limiter : RateLimiter F}
      {reply : Reply} :
    s.requests[i]? = some (.consuming p asked) → reply.status ≠ 200 →
    Effect A s (.consume i now monotonic)
      { s with limiter, requests := s.requests.set i (.answered reply) }
  | commit {i : ℕ} {now monotonic : Double F} {p : Paid F E} {limiter : RateLimiter F} :
    Commits A s i p → s.store.rows.get? (p.valid.key A.interpreter A.config) = none →
    Effect A s (.consume i now monotonic) (A.served s limiter i now p)
  | retry {i : ℕ} {asked : Double F} {p : Paid F E} {reply : Reply} :
    s.requests[i]? = some (.waiting p asked) → reply.status ≠ 200 →
    Effect A s (.retry i) { s with requests := s.requests.set i (.answered reply) }
  | purge {now : ℤ} : s.clock ≤ now →
    Effect A s (.purge now) { s with clock := now, store := s.store.purgeExpired now }
  | advice (agentId : ℤ) (body : Json F) (now : Double F) :
    Effect A s (.advice agentId body now) { s with memory := A.advised s agentId body now }

theorem status_paymentRequired (resource : Str) (error : Option Str) :
    (A.paymentRequired resource error).status ≠ 200 :=
  status_jsonResponse_ne (by decide) _ _

theorem status_failed (resource : Str) (e : Failure F) : (A.failed resource e).status ≠ 200 := by
  cases e with
  | refused why => exact status_paymentRequired _ _
  | raised => simp [failed]

theorem status_limited (p : Paid F E) (now : Double F) : (A.limited s p now).status ≠ 200 := by
  simp only [limited]
  split
  · simp
  · exact status_jsonResponse_ne (by decide) _ _

omit [Json.FloatText F] in
theorem checkPayment_eq_ok {now : ℤ} {parsed : Except (Refusal F) (List (Str × Json F))}
    {v : Valid F} (h : A.checkPayment s now parsed = .ok v) :
    ∃ members, parsed = .ok members ∧
      validateSignature A.interpreter A.config now members = .ok v := by
  cases parsed with
  | error why => cases h
  | ok members => exact ⟨members, rfl, validatePayment_eq_ok h⟩

theorem payment_eq_error {now : ℤ} {r : Request F} {reply : Reply}
    (h : A.payment s now r = .error reply) : reply.status ≠ 200 := by
  unfold payment at h
  split at h
  · cases h
    exact status_paymentRequired _ _
  · obtain ⟨e, -, rfl⟩ := mapError_eq_error.mp h
    exact status_failed _ _

theorem payment_eq_ok {now : ℤ} {r : Request F} {v : Valid F} (h : A.payment s now r = .ok v) :
    ∃ raw members, r.header = some raw ∧ parsePaymentHeader raw = .ok members ∧
      validateSignature A.interpreter A.config now members = .ok v := by
  unfold payment at h
  split at h
  · cases h
  · next raw hraw =>
    obtain ⟨members, hparsed, hvalid⟩ := checkPayment_eq_ok (mapError_eq_ok.mp h)
    exact ⟨raw, members, Option.eq_some_of_filter_eq_some hraw, hparsed, hvalid⟩

/-- The empty text is no payment. -/
theorem parsePaymentHeader_nil (members : List (Str × Json F)) :
    parsePaymentHeader [] ≠ .ok members := by
  have hdecode : Base64.decode [] = some [] := Base64.decode_encode []
  have hutf8 : utf8Decode [] = some [] := utf8Decode_utf8 (s := []) rfl
  have hparse : Json.parse (F := F) [] = none := rfl
  rw [parsePaymentHeader, loadsBase64, hdecode, Option.bind_some, hutf8, Option.bind_some, hparse]
  simp [headerObject]

theorem payment_of_header {now : ℤ} {r : Request F} {raw : Str} {members : List (Str × Json F)}
    {v : Valid F} (hheader : r.header = some raw) (hparse : parsePaymentHeader raw = .ok members)
    (hvalid : validatePayment A.interpreter A.config now s.store members = .ok v) :
    A.payment s now r = .ok v := by
  have hne : raw ≠ [] := by
    rintro rfl
    exact parsePaymentHeader_nil members hparse
  have hfilter : r.header.filter (!·.isEmpty) = some raw := by simp [hheader, hne]
  simp only [payment, hfilter, hparse]
  exact mapError_eq_ok.mpr hvalid

theorem admission_eq_error {now : ℤ} {r : Request F} {reply : Reply}
    (h : A.admission s now r = .error reply) : reply.status ≠ 200 := by
  unfold admission at h
  split at h
  · cases h
    exact status_jsonResponse_ne (by decide) _ _
  · cases hv : A.payment s now r with
    | error e =>
      rw [hv] at h
      cases h
      exact payment_eq_error hv
    | ok v =>
      rw [hv] at h
      cases h

theorem admission_eq_ok {now : ℤ} {r : Request F} {p : Paid F E} (h : A.admission s now r = .ok p) :
    A.requestCall s r = .ok p.call ∧ A.payment s now r = .ok p.valid := by
  unfold admission at h
  split at h
  · cases h
  · next call hc =>
    cases hv : A.payment s now r with
    | error e =>
      rw [hv] at h
      cases h
    | ok v =>
      rw [hv] at h
      cases h
      exact ⟨hc, rfl⟩

/-- A request with a token is refused, or commits its nonce. -/
theorem serve_cases (now : Double F) (p : Paid F E) :
    (A.serve s now p).1 = s ∧ (A.serve s now p).2.status ≠ 200 ∨
    Call.taken s p.call = none ∧ ∃ store, commitNonce A.interpreter A.config s.store p.valid =
      .ok store ∧ A.serve s now p =
        ({ s with store := store, memory := (A.answer s now p).1 }, (A.answer s now p).2) := by
  unfold serve
  split
  · exact .inl ⟨rfl, status_jsonResponse_ne (by decide) _ _⟩
  · next hfree =>
    split
    · exact .inl ⟨rfl, status_failed _ _⟩
    · next store hstore => exact .inr ⟨hfree, store, hstore, rfl⟩

theorem effect_consume {i : ℕ} {now monotonic asked : Double F} {p : Paid F E}
    (hstage : s.requests[i]? = some (.consuming p asked)) :
    Effect A s (.consume i now monotonic) (A.consume s i now monotonic p asked) := by
  simp only [App.consume]
  split
  · next hgranted =>
    rcases serve_cases (A := A) (s := { s with limiter := _ }) now p with
      ⟨hs, hstatus⟩ | ⟨hfree, store, hstore, heq⟩
    · rw [hs]
      exact .refuse hstage hstatus
    · rw [heq]
      obtain ⟨hnone, rfl⟩ := commitNonce_eq_ok hstore
      exact .commit ⟨⟨asked, hstage, hgranted⟩, hfree, _, hstore⟩ hnone
  · exact .limit hstage

theorem effect_read {i : ℕ} {now : ℤ} {monotonic : Double F} {r : Request F}
    (hstage : s.requests[i]? = some (.reading r)) (hclock : s.clock ≤ now) :
    Effect A s (.read i now monotonic) (A.read s i now monotonic r) := by
  simp only [App.read]
  split
  · next reply h => exact .turnAway hstage hclock (admission_eq_error h)
  · next p h => exact .accept hstage hclock h

theorem effect (h : A.Step s e s') : Effect A s e s' := by
  unfold Step at h
  cases e with
  | arrive r =>
    cases h
    exact .arrive r
  | read i now monotonic =>
    simp only [step] at h
    split at h
    · next hstage =>
      obtain ⟨hclock, h⟩ := Option.ite_none_left_eq_some.mp h
      cases h
      exact effect_read hstage (not_lt.mp hclock)
    · cases h
  | consume i now monotonic =>
    simp only [step] at h
    split at h
    · next hstage =>
      cases h
      exact effect_consume hstage
    · cases h
  | retry i =>
    simp only [step] at h
    split at h
    · next hstage =>
      cases h
      exact .retry hstage (status_limited _ _)
    · cases h
  | purge now =>
    obtain ⟨hclock, h⟩ := Option.ite_none_left_eq_some.mp h
    cases h
    exact .purge (not_lt.mp hclock)
  | advice agentId body now =>
    cases h
    exact .advice agentId body now

/-- An admitted payment has not expired. -/
theorem lt_validBefore_of_admission {now : ℤ} {r : Request F} {p : Paid F E}
    (h : A.admission s now r = .ok p) : now < p.valid.validBefore := by
  obtain ⟨-, members, -, -, hvalid⟩ := payment_eq_ok (admission_eq_ok h).2
  obtain ⟨q, recovered, d, -, hterms, -, hv⟩ := Parts.validateSignature_eq_ok.mp hvalid
  rw [hv]
  exact (checkTerms_eq_ok.mp hterms).1

/-- What a step does to the nonce store. -/
theorem store_of_effect (h : Effect A s e s') : s'.store = s.store ∨
    (∃ p : Paid F E, s.store.rows.get? (p.valid.key A.interpreter A.config) = none ∧
      s'.store.rows = s.store.rows.set (p.valid.key A.interpreter A.config) p.valid.validBefore) ∨
    ∃ now, e = .purge now ∧ s'.clock = now ∧ s'.requests = s.requests ∧
      s'.store.rows = s.store.rows.filter fun expiresAt => !(expiresAt ≤ now) := by
  cases h with
  | @commit _ _ _ p _ _ hnone => exact .inr (.inl ⟨p, hnone, rfl⟩)
  | @purge now => exact .inr (.inr ⟨now, rfl, rfl, rfl, rfl⟩)
  | _ => exact .inl rfl

/-- A request that waits for the limiter. -/
def Pending (s : State F E) (p : Paid F E) : Prop := ∃ asked, .consuming p asked ∈ s.requests

omit [Json.FloatText F] in
theorem pending_set {s' : State F E} {p : Paid F E} {i : ℕ} {stage : Stage F E}
    (h : Pending s' p) (hs : s'.requests = s.requests.set i stage)
    (hstage : ∀ asked, stage ≠ .consuming p asked) : Pending s p := by
  obtain ⟨asked, hmem⟩ := h
  rw [hs] at hmem
  rcases List.mem_or_eq_of_mem_set hmem with hmem | heq
  · exact ⟨asked, hmem⟩
  · exact absurd heq.symm (hstage asked)

/-- A request that waits for the limiter did so before, or was just admitted. -/
theorem pending_of_effect (h : Effect A s e s') {p : Paid F E} (hp : Pending s' p) :
    Pending s p ∨ ∃ i now monotonic r, e = .read i now monotonic ∧
      s.requests[i]? = some (.reading r) ∧ s.clock ≤ now ∧
        A.admission { s with clock := now } now r = .ok p := by
  cases h with
  | arrive r =>
    obtain ⟨asked, hmem⟩ := hp
    exact .inl ⟨asked, by simpa using hmem⟩
  | turnAway => exact .inl (pending_set hp rfl (by simp))
  | @accept i now monotonic r q hstage hclock hadmission =>
    by_cases hq : q = p
    · subst hq
      exact .inr ⟨i, now, monotonic, r, rfl, hstage, hclock, hadmission⟩
    · exact .inl (pending_set hp rfl (by simp [hq]))
  | @limit i => exact .inl (pending_set (i := i) hp rfl (by simp))
  | @refuse i => exact .inl (pending_set (i := i) hp rfl (by simp))
  | @commit i => exact .inl (pending_set (i := i) hp rfl (by simp))
  | @retry i => exact .inl (pending_set (i := i) hp rfl (by simp))
  | purge => exact .inl hp
  | advice => exact .inl hp

theorem clock_le (h : Effect A s e s') : s.clock ≤ s'.clock := by
  cases h with
  | turnAway _ hclock => exact hclock
  | accept _ hclock => exact hclock
  | purge hclock => exact hclock
  | _ => exact le_refl s.clock

/-- A step that answers a request with a 200. -/
def Serves (st : Trace.Step (State F E) (Event F)) (p : Paid F E) : Prop :=
  ∃ i now monotonic asked reply, st.ev = .consume i now monotonic ∧
    st.pre.requests[i]? = some (.consuming p asked) ∧
    st.post.requests[i]? = some (.answered reply) ∧ reply.status = 200

/-- Only a commit does so. -/
theorem commit_of_serves {p : Paid F E} (h : Effect A s e s') (hs : Serves ⟨s, e, s'⟩ p) :
    ∃ i now limiter, Commits A s i p ∧
      s.store.rows.get? (p.valid.key A.interpreter A.config) = none ∧
      s' = A.served s limiter i now p := by
  obtain ⟨i, now, monotonic, asked, reply, rfl, hpre, hpost, hstatus⟩ := hs
  have hi : i < s.requests.length := (List.getElem?_eq_some_iff.mp hpre).1
  cases h with
  | limit => simp [List.getElem?_set_self hi] at hpost
  | refuse _ hne =>
    simp only [List.getElem?_set_self hi, Option.some.injEq, Stage.answered.injEq] at hpost
    exact absurd (hpost ▸ hstatus) hne
  | @commit _ _ _ q limiter hcommits hnone =>
    obtain ⟨asked', hstage, -⟩ := hcommits.stage
    rw [hpre, Option.some.injEq, Stage.consuming.injEq] at hstage
    obtain ⟨rfl, -⟩ := hstage
    exact ⟨i, now, limiter, hcommits, hnone, rfl⟩

section Progress

variable {now : ℤ} {r : Request F} {p : Paid F E} {asked time monotonic : Double F} {i : ℕ}

/-- The limiter after the call of a request that waits for it. -/
def limiterAfter (A : App F E) (s : State F E) (p : Paid F E) (asked : Double F) : RateLimiter F :=
  (s.limiter.consume A.numerics p.valid.signer 1 asked).1

theorem serve_eq (time : Double F) {store : NonceStore} (hfree : Call.taken s p.call = none)
    (hstore : commitNonce A.interpreter A.config s.store p.valid = .ok store) :
    A.serve s time p =
      ({ s with store := store, memory := (A.answer s time p).1 }, (A.answer s time p).2) := by
  simp only [serve, hfree, hstore]

/-- A request that commits is answered. -/
theorem step_of_commits (hstage : s.requests[i]? = some (.consuming p asked))
    (h : Commits A s i p) :
    A.Step s (.consume i time monotonic) (A.served s (A.limiterAfter s p asked) i time p) := by
  obtain ⟨⟨asked', hstage', htoken⟩, hfree, store, hstore⟩ := h
  rw [hstage, Option.some.injEq, Stage.consuming.injEq] at hstage'
  obtain ⟨-, rfl⟩ := hstage'
  obtain ⟨-, hstore'⟩ := commitNonce_eq_ok hstore
  have hserve := serve_eq (A := A) (s := { s with limiter := A.limiterAfter s p asked }) (p := p)
    time hfree hstore
  simp only [Step, step, hstage, App.consume, htoken, if_true, Option.some.injEq]
  change setStage (A.serve { s with limiter := A.limiterAfter s p asked } time p).1 i
    (.answered (A.serve { s with limiter := A.limiterAfter s p asked } time p).2) = _
  rw [hserve, hstore']
  rfl

/-- The state in which an admitted request waits for the limiter. -/
def admitted (s : State F E) (now : ℤ) (p : Paid F E) (asked : Double F) : State F E :=
  { s with clock := now, requests := s.requests ++ [.consuming p asked] }

/-- The state after a new request was served. -/
def serviced (A : App F E) (s : State F E) (now : ℤ) (p : Paid F E) (asked time : Double F) :
    State F E :=
  A.served (admitted s now p asked) (A.limiterAfter s p asked) s.requests.length time p

/-- The steps that serve a request, from its arrival on. -/
def serviceSteps (A : App F E) (s : State F E) (now : ℤ) (r : Request F) (p : Paid F E)
    (asked time : Double F) : List (Trace.Step (State F E) (Event F)) :=
  let i := s.requests.length
  let s₁ : State F E := { s with requests := s.requests ++ [.reading r] }
  let s₂ := admitted s now p asked
  [⟨s, .arrive r, s₁⟩, ⟨s₁, .read i now asked, s₂⟩,
    ⟨s₂, .consume i time asked, A.serviced s now p asked time⟩]

/-- A new request whose payment is accepted is served, when there is a token for it. -/
theorem run_service (hclock : s.clock ≤ now) (hadmission : A.admission s now r = .ok p)
    (htoken : (s.limiter.consume A.numerics p.valid.signer 1 asked).2 = true)
    (hfree : Call.taken s p.call = none)
    (hcommit : ∃ store, commitNonce A.interpreter A.config s.store p.valid = .ok store) :
    Trace.Run A.Step s (serviceSteps A s now r p asked time)
      (A.serviced s now p asked time) := by
  have hread : A.Step { s with requests := s.requests ++ [.reading r] }
      (.read s.requests.length now asked) (admitted s now p asked) := by
    have hadmission' :
        A.admission { s with clock := now, requests := s.requests ++ [.reading r] } now r =
      .ok p := hadmission
    simp only [Step, step, List.getElem?_concat_length, if_neg (not_lt.mpr hclock), App.read,
      hadmission', setStage, admitted, List.set_append_right _ _ (le_refl _), Nat.sub_self,
      List.set_cons_zero]
  have hstage : (admitted s now p asked).requests[s.requests.length]? =
      some (.consuming p asked) := List.getElem?_concat_length
  have hconsume : A.Step (admitted s now p asked) (.consume s.requests.length time asked)
      (A.serviced s now p asked time) :=
    step_of_commits hstage ⟨⟨asked, hstage, htoken⟩, hfree, hcommit⟩
  exact ((Trace.Run.nil.snoc (.arrive r) rfl).snoc _ hread).snoc _ hconsume

/-- The last of these steps serves it. -/
theorem serves_service (hstatus : (A.answer s time p).2.status = 200) :
    Serves ⟨admitted s now p asked, .consume s.requests.length time asked,
      A.serviced s now p asked time⟩ p := by
  refine ⟨s.requests.length, time, asked, asked, (A.answer s time p).2, rfl,
    List.getElem?_concat_length, ?_, hstatus⟩
  have hreply : (A.serviced s now p asked time).requests =
      s.requests ++ [.answered (A.answer s time p).2] := by
    simp only [serviced, served, admitted, List.set_append_right _ _ (le_refl _), Nat.sub_self,
      List.set_cons_zero]
    rfl
  simp only [hreply, List.getElem?_concat_length]

end Progress

end App

end DarkPool
end Arcane
