import Arcane.X402.BatchClient

/-!
# What one step of the batch client does

`Change` says it once: a step moves a call of `pay` on, hands an accepted authorization over to the
queue policy, or does what a flush or a `close` does (`change`). The invariants are derived from it.
-/

namespace Arcane
namespace X402
open Text

/-- The event is about a call of `pay`. -/
def Event.ofPay : Event → Bool
  | .pay .. | .response .. | .json .. | .signature .. | .fails .. | .settled .. => true
  | _ => false

namespace X402BatchClient

/-- The call whose authorization the server accepted with a 200 that the client could read. -/
def accepted (s : X402BatchClient) : Event → Option (PayCall × PaymentAuthorization)
  | .json id body _ _ =>
    (s.calls id).bind fun call =>
      match call.stage, body with
      | .secondBody _, .notJson => none
      | .secondBody auth, _ => some (call, auth)
      | _, _ => none
  | _ => none

/-- What a step does. -/
inductive Change (cfg : Config) (s : X402BatchClient) : Event → X402BatchClient → Prop
  /-- A call of `pay` moves on, and nothing else does. -/
  | call {e : Event} (calls : ℕ → Option PayCall) (hp : e.ofPay = true) (h : s.accepted e = none) :
      Change cfg s e { s with calls }
  | accept {e : Event} (id : ℕ) {call : PayCall} {auth : PaymentAuthorization} (now : ℤ)
      (hp : e.ofPay = true) (h : s.accepted e = some (call, auth)) :
      Change cfg s e (s.accept cfg id call auth now)
  | flush : Change cfg s .flush (s.flush .manual)
  | age (now : ℤ) : Change cfg s (.ageTick now) (s.maybeFlushByAge cfg now)
  | flushed {result : Except X402Error BatchedSettlement} {batch : Batch} {s' : X402BatchClient}
      (hf : s.flushInFlight = some batch) (hs : s.onFlushed result = some s') :
      Change cfg s (.flushed result) s'
  | close : Change cfg s .close s.close
  | closeReturns (h : s.closePromise = .flushed) :
      Change cfg s .closeReturns { s with closePromise := .settled, closeResolved := true }

section

variable {U : Unicode} {cfg : Config} {s s' : X402BatchClient} {e : Event} {id : ℕ}
  {call : PayCall}

theorem startPay_calls (s : X402BatchClient) (id : ℕ) (url : Str) (options : PayOptions) :
    ∃ calls, s.startPay id url options = { s with calls } := by
  unfold startPay
  split
  · exact ⟨_, rfl⟩
  · split <;> exact ⟨_, rfl⟩

theorem onResponse_calls {status : ℕ} (h : s.onResponse id call status = some s') :
    ∃ calls, s' = { s with calls } := by
  unfold onResponse at h
  split at h
  · split at h
    · cases h; exact ⟨_, rfl⟩
    · split at h <;> · cases h; exact ⟨_, rfl⟩
  · split at h <;> · cases h; exact ⟨_, rfl⟩
  · cases h

theorem onSignature_calls {signature : Option Str} (h : s.onSignature id call signature = some s') :
    ∃ calls, s' = { s with calls } := by
  unfold onSignature at h
  split at h
  · split at h <;> · cases h; exact ⟨_, rfl⟩
  · cases h

theorem onFailure_calls (h : s.onFailure id call = some s') : ∃ calls, s' = { s with calls } := by
  unfold onFailure at h
  split at h <;> cases h <;> exact ⟨_, rfl⟩

theorem onSettled_calls {result : Except X402Error BatchedSettlement}
    (h : s.onSettled id call result = some s') : ∃ calls, s' = { s with calls } := by
  unfold onSettled at h
  split at h
  · split at h <;> · cases h; exact ⟨_, rfl⟩
  · cases h

/-- The body of a response: that of the paid one is what the server accepted. -/
theorem onJson_change {body : Body} {now : ℤ} {nonce : Str} (hc : s.calls id = some call)
    (h : s.onJson U cfg id call body now nonce = some s') :
    Change cfg s (.json id body now nonce) s' := by
  unfold onJson at h
  split at h
  · next hst =>
    have ha : s.accepted (.json id body now nonce) = none := by simp [accepted, hc, hst]
    split at h <;> · cases h; exact .call _ rfl ha
  · next auth hst =>
    split at h
    · cases h
      exact .call _ rfl (by simp [accepted, hc, hst])
    · next hb =>
      cases h
      have ha : s.accepted (.json id body now nonce) = some (call, auth) := by
        cases body with
        | notJson => exact absurd rfl hb
        | _ => simp [accepted, hc, hst]
      exact .accept id now rfl ha
  · cases h

theorem change (h : step U cfg s e = some s') : Change cfg s e s' := by
  cases e with
  | pay id url options =>
    simp only [step] at h
    split at h
    · cases h
    · cases h
      obtain ⟨calls, heq⟩ := startPay_calls s id url options
      rw [heq]
      exact .call calls rfl rfl
  | response id status =>
    obtain ⟨call, -, h⟩ := Option.bind_eq_some_iff.mp h
    obtain ⟨calls, rfl⟩ := onResponse_calls h
    exact .call calls rfl rfl
  | json id body now nonce =>
    obtain ⟨call, hc, h⟩ := Option.bind_eq_some_iff.mp h
    exact onJson_change hc h
  | signature id signature =>
    obtain ⟨call, -, h⟩ := Option.bind_eq_some_iff.mp h
    obtain ⟨calls, rfl⟩ := onSignature_calls h
    exact .call calls rfl rfl
  | fails id =>
    obtain ⟨call, -, h⟩ := Option.bind_eq_some_iff.mp h
    obtain ⟨calls, rfl⟩ := onFailure_calls h
    exact .call calls rfl rfl
  | settled id result =>
    obtain ⟨call, -, h⟩ := Option.bind_eq_some_iff.mp h
    obtain ⟨calls, rfl⟩ := onSettled_calls h
    exact .call calls rfl rfl
  | flush =>
    cases h
    exact .flush
  | ageTick now =>
    simp only [step] at h
    split at h
    · cases h
      exact .age now
    · cases h
  | flushed result =>
    have hs := h
    simp only [step, onFlushed] at h
    split at h
    · cases h
    · next batch hf => exact .flushed hf hs
  | close =>
    cases h
    exact .close
  | closeReturns =>
    simp only [step, onCloseReturns] at h
    split at h
    · next hp =>
      cases h
      exact .closeReturns hp
    · cases h

end

end X402BatchClient
end X402
end Arcane
