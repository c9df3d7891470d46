import Arcane.X402.Conservation

/-!
# Shutting the client down

`close` returns the promise of a `flush`. That flush drains the queue unless another one is in
flight, whose batch is older than the queue; and a `pay` that was suspended when the client was
closed still enqueues. `Drains` says of a step that it does neither: it is what a run must meet for
the queue to be empty from the moment the promise of `close()` resolves (`drained_iff`).
-/

namespace Arcane
namespace X402
namespace X402BatchClient

open Text Trace

/-- An authorization that is enqueued by `call` is flushed in the same step. -/
def FlushedAtOnce (cfg : Config) (s : X402BatchClient) (call : PayCall) : Prop :=
  match effectiveMode cfg call with
  | .immediate => True
  | .manual => False
  | .auto => s.flushInFlight = none ∧ cfg.maxBatchSize ≤ s.queue.length + 1

/-- A `close()` does not meet a flush in flight and a queue, and a `pay` that ends after it leaves
nothing in the queue. -/
structure Drains (cfg : Config) (st : Trace.Step X402BatchClient Event) : Prop where
  close : st.ev = .close → st.pre.closed = false → st.pre.flushInFlight ≠ none → st.pre.queue = []
  pay : ∀ call auth, st.pre.closed = true → st.pre.accepted st.ev = some (call, auth) →
    FlushedAtOnce cfg st.pre call

/-- The event rejects the settlement of the batch in flight. -/
def rejects : Event → Bool
  | .flushed (.error _) => true
  | _ => false

/-- No settlement is rejected. -/
def Succeeds (st : Trace.Step X402BatchClient Event) : Prop := rejects st.ev = false

/-- Once a promise of `close()` has resolved the queue is empty, and all that was enqueued is
settled unless its flush is still in flight. -/
def Drained (cfg : Config) (tr : List (Trace.Step X402BatchClient Event)) (s : X402BatchClient) :
    Prop :=
  s.closeResolved = true → s.queue = [] ∧
    (s.flushInFlight = none → ∀ a, (allEnqueued cfg tr).count a = (allSettled tr).count a)

/-- The step only goes on with a promise that the client waits for. -/
def Settling (st : Trace.Step X402BatchClient Event) : Prop :=
  (∃ b, st.ev = .flushed (.ok b)) ∨ st.ev = .closeReturns

section Queue

variable {cfg : Config} {s : X402BatchClient} {id : ℕ} {call : PayCall}
  {auth : PaymentAuthorization} {now : ℤ}

theorem queue_flush (reason : Reason) :
    (s.flush reason).queue = if s.flushInFlight.isSome then s.queue else [] := by
  unfold flush
  split <;> rfl

theorem queue_flush_nil (reason : Reason) (h : s.queue = []) : (s.flush reason).queue = [] := by
  rw [queue_flush, h]
  split <;> rfl

theorem queue_flushBySize_enqueue {url : Str} :
    ((s.enqueue auth url now).flushBySize cfg).queue = [] ↔
      s.flushInFlight = none ∧ cfg.maxBatchSize ≤ s.queue.length + 1 := by
  have hlen : ((s.enqueue auth url now).queue.length : ℤ) = s.queue.length + 1 := by
    simp [enqueue]
  have hq : (s.enqueue auth url now).queue ≠ [] := by simp [enqueue]
  have hf : (s.enqueue auth url now).flushInFlight = s.flushInFlight := rfl
  unfold flushBySize
  rw [hlen]
  split
  · next hmax =>
    rw [queue_flush, hf]
    cases s.flushInFlight <;> simp [hq, hmax]
  · next hmax => simp [hq, hmax]

/-- What the queue policy leaves in the queue of a client that had an empty one. -/
theorem queue_accept_nil (h : s.queue = []) (hf : FlushedAtOnce cfg s call) :
    (s.accept cfg id call auth now).queue = [] := by
  unfold FlushedAtOnce at hf
  unfold accept
  cases hm : effectiveMode cfg call with
  | immediate => exact h
  | manual =>
    rw [hm] at hf
    exact hf.elim
  | auto =>
    rw [hm] at hf
    exact queue_flushBySize_enqueue.mpr hf

theorem queue_accept_ne_nil (hf : ¬ FlushedAtOnce cfg s call) :
    (s.accept cfg id call auth now).queue ≠ [] := by
  unfold FlushedAtOnce at hf
  unfold accept
  cases hm : effectiveMode cfg call with
  | immediate =>
    rw [hm] at hf
    exact absurd trivial hf
  | manual => simp [setStage, enqueue]
  | auto =>
    rw [hm] at hf
    exact fun hq => hf (queue_flushBySize_enqueue.mp hq)

end Queue

section Phase

variable {U : Unicode} {cfg : Config} {s s' : X402BatchClient} {e : Event}

/-- The step is no part of `close()`, and ends no flush. -/
structure SameClose (s s' : X402BatchClient) : Prop where
  closed : s'.closed = s.closed
  closePromise : s'.closePromise = s.closePromise
  closeResolved : s'.closeResolved = s.closeResolved
  flushInFlight : s.flushInFlight ≠ none → s'.flushInFlight ≠ none

theorem sameClose_refl : SameClose s s := ⟨rfl, rfl, rfl, id⟩

theorem SameClose.trans {t : X402BatchClient} (h : SameClose s s') (h' : SameClose s' t) :
    SameClose s t :=
  ⟨h'.closed.trans h.closed, h'.closePromise.trans h.closePromise,
    h'.closeResolved.trans h.closeResolved, fun hf => h'.flushInFlight (h.flushInFlight hf)⟩

theorem sameClose_flush (reason : Reason) : SameClose s (s.flush reason) := by
  unfold flush
  split
  · exact sameClose_refl
  · exact ⟨rfl, rfl, rfl, fun _ => Option.some_ne_none _⟩

theorem sameClose_flushBySize : SameClose s (s.flushBySize cfg) := by
  unfold flushBySize
  split
  · exact sameClose_flush .size
  · exact sameClose_refl

theorem sameClose_maybeFlushByAge (now : ℤ) : SameClose s (s.maybeFlushByAge cfg now) := by
  unfold maybeFlushByAge
  split
  · exact sameClose_refl
  · split
    · exact sameClose_flush .age
    · exact sameClose_refl

theorem sameClose_accept (id : ℕ) (call : PayCall) (auth : PaymentAuthorization) (now : ℤ) :
    SameClose s (s.accept cfg id call auth now) := by
  unfold accept
  cases effectiveMode cfg call with
  | auto =>
    have h : SameClose s (s.enqueue auth call.url now) := ⟨rfl, rfl, rfl, fun h => h⟩
    exact (h.trans sameClose_flushBySize).trans ⟨rfl, rfl, rfl, fun h => h⟩
  | _ => exact ⟨rfl, rfl, rfl, fun h => h⟩

theorem flush_inFlight (reason : Reason) : (s.flush reason).flushInFlight ≠ none := by
  unfold flush
  split
  · next h => exact Option.isSome_iff_ne_none.mp h
  · exact Option.some_ne_none _

/-- How far the shutdown is, when no settlement is rejected. -/
structure ClosePhase (s : X402BatchClient) : Prop where
  opened : s.closed = false → s.closePromise = .notCalled ∧ s.closeResolved = false
  called : s.closed = true → s.closePromise ≠ .notCalled
  flushing : s.closePromise = .flushing → s.flushInFlight ≠ none
  settled : s.closePromise = .settled → s.closeResolved = true

theorem ClosePhase.same (h : ClosePhase s) (hs : SameClose s s') : ClosePhase s' where
  opened := by
    rw [hs.closed, hs.closePromise, hs.closeResolved]
    exact h.opened
  called := by
    rw [hs.closed, hs.closePromise]
    exact h.called
  flushing hp := hs.flushInFlight (h.flushing (hs.closePromise ▸ hp))
  settled := by
    rw [hs.closePromise, hs.closeResolved]
    exact h.settled

theorem ClosePhase.close (h : ClosePhase s) : ClosePhase s.close := by
  unfold X402BatchClient.close
  split
  · next hc => exact ⟨fun ho => by simp [hc] at ho, h.called, h.flushing, fun _ => rfl⟩
  · have hf := flush_inFlight (s := { s with closed := true, ageTimer := false }) .shutdown
    have hc :=
      (sameClose_flush (s := { s with closed := true, ageTimer := false }) .shutdown).closed
    refine ⟨fun ho => ?_, fun _ => by simp, fun _ => hf, fun hp => by simp at hp⟩
    rw [hc] at ho
    simp at ho

theorem ClosePhase.onFlushed {b : BatchedSettlement} (h : ClosePhase s)
    (hs : s.onFlushed (.ok b) = some s') : ClosePhase s' := by
  unfold X402BatchClient.onFlushed at hs
  split at hs
  · cases hs
  · cases hs
    cases hp : s.closePromise with
    | notCalled => exact ⟨fun ho => ⟨rfl, (h.opened ho).2⟩, fun hc => absurd hp (h.called hc),
        fun hq => by simp at hq, fun hq => by simp at hq⟩
    | flushing =>
      refine ⟨fun ho => ?_, fun _ => by simp, fun hq => by simp at hq, fun hq => by simp at hq⟩
      have hn := (h.opened ho).1
      rw [hp] at hn
      cases hn
    | flushed =>
      refine ⟨fun ho => ?_, fun _ => by simp, fun hq => by simp at hq, fun hq => by simp at hq⟩
      have hn := (h.opened ho).1
      rw [hp] at hn
      cases hn
    | settled =>
      refine ⟨fun ho => ?_, fun _ => by simp, fun hq => by simp at hq, fun _ => h.settled hp⟩
      have hn := (h.opened ho).1
      rw [hp] at hn
      cases hn

theorem closePhase_step (h : Step U cfg anySettler s e s') (hs : Succeeds ⟨s, e, s'⟩)
    (hp : ClosePhase s) : ClosePhase s' := by
  cases change h.2 with
  | call calls _ _ => exact hp.same ⟨rfl, rfl, rfl, fun h => h⟩
  | accept id now _ _ => exact hp.same (sameClose_accept id _ _ now)
  | flush => exact hp.same (sameClose_flush .manual)
  | age now => exact hp.same (sameClose_maybeFlushByAge now)
  | flushed hf hfl =>
    next result _ =>
    cases result with
    | error err => cases hs
    | ok b => exact hp.onFlushed hfl
  | close => exact hp.close
  | closeReturns hr =>
    refine ⟨fun ho => ?_, fun _ => by simp, fun hq => by simp at hq, fun _ => rfl⟩
    have hn := (hp.opened ho).1
    rw [hr] at hn
    cases hn

theorem closePhase {tr : List (Trace.Step X402BatchClient Event)}
    (h : Run (Step U cfg anySettler) (new cfg) tr s) (hs : ∀ st ∈ tr, Succeeds st) :
    ClosePhase s := by
  have hr := h.restrict hs
  refine hr.invariant (I := ClosePhase) ?_ fun s e s' ih hst => closePhase_step hst.1 hst.2 ih
  exact ⟨fun _ => ⟨rfl, rfl⟩, fun hc => by simp [new] at hc, fun hq => by simp [new] at hq,
    fun hq => by simp [new] at hq⟩

end Phase

section Drain

variable {U : Unicode} {cfg : Config} {s s' : X402BatchClient} {e : Event}
  {tr : List (Trace.Step X402BatchClient Event)}

/-- A closed client's queue stays empty as long as the steps drain it. -/
theorem queue_nil_step (h : Step U cfg anySettler s e s') (hd : Drains cfg ⟨s, e, s'⟩)
    (ih : s.closed = true → s.queue = []) (hc : s'.closed = true) : s'.queue = [] := by
  cases change h.2 with
  | call calls _ _ => exact ih hc
  | @accept _ id call auth now _ ha =>
    have hsame : SameClose s (s.accept cfg id call auth now) := sameClose_accept id call auth now
    have hc' := hsame.closed.symm.trans hc
    exact queue_accept_nil (ih hc') (hd.pay _ _ hc' ha)
  | flush => exact queue_flush_nil .manual (ih ((sameClose_flush .manual).closed.symm.trans hc))
  | age now =>
    have hsame : SameClose s (s.maybeFlushByAge cfg now) := sameClose_maybeFlushByAge now
    have hq := ih (hsame.closed.symm.trans hc)
    simp [maybeFlushByAge, hq]
  | flushed hf hs =>
    simp only [onFlushed, hf] at hs
    cases hs
    exact ih hc
  | close =>
    unfold X402BatchClient.close
    split
    · next hcl => exact ih hcl
    · next hcl =>
      show (flush _ .shutdown).queue = []
      rw [queue_flush]
      split
      · next hf => exact hd.close rfl (by simpa using hcl) (Option.isSome_iff_ne_none.mp hf)
      · rfl
  | closeReturns _ => exact ih hc

theorem queue_nil (h : Run (Step U cfg anySettler) (new cfg) tr s)
    (hd : ∀ st ∈ tr, Drains cfg st) : s.closed = true → s.queue = [] := by
  have hr := h.restrict hd
  exact hr.invariant (I := fun s => s.closed = true → s.queue = []) (fun _ => rfl)
    fun s e s' ih hst => queue_nil_step hst.1 hst.2 ih

theorem drained_of_drains (h : Run (Step U cfg anySettler) (new cfg) tr s)
    (hs : ∀ st ∈ tr, Succeeds st) (hd : ∀ st ∈ tr, Drains cfg st) : Drained cfg tr s := by
  intro hr
  have hc : s.closed = true := by
    by_contra hc
    have hn := ((closePhase h hs).opened (by simpa using hc)).2
    rw [hr] at hn
    cases hn
  have hq := queue_nil h hd hc
  refine ⟨hq, fun hf a => ?_⟩
  have hn : ∀ st ∈ tr, NoLoss st := by
    intro st hst err _ hev _
    have hst' := hs st hst
    rw [Succeeds, hev] at hst'
    cases hst'
  rw [conserved_of_noLoss h hn hf a]
  simp [pending, hq]

/-- A step that does not drain leaves a closed client with a queue. -/
theorem queue_of_not_drains (h : Step U cfg anySettler s e s') (hd : ¬ Drains cfg ⟨s, e, s'⟩) :
    s'.closed = true ∧ s'.queue ≠ [] := by
  by_contra hn
  apply hd
  constructor
  · rintro rfl ho hf
    by_contra hq
    apply hn
    cases h.2
    have hcl : ¬ s.closed = true := by simpa using ho
    simp only [X402BatchClient.close, hcl, Bool.false_eq_true, if_false]
    refine
      ⟨(sameClose_flush (s := { s with closed := true, ageTimer := false }) .shutdown).closed, ?_⟩
    rw [queue_flush, if_pos (Option.isSome_iff_ne_none.mpr hf)]
    exact hq
  · intro call auth hc ha
    by_contra hfl
    apply hn
    cases change h.2 with
    | call calls _ ha' =>
      rw [ha] at ha'
      cases ha'
    | accept id now _ ha' =>
      rw [ha] at ha'
      cases ha'
      exact ⟨(sameClose_accept id _ _ now).closed.trans hc, queue_accept_ne_nil hfl⟩
    | _ => cases ha

theorem step_flushed (U : Unicode) (cfg : Config) {batch : Batch}
    (hf : s.flushInFlight = some batch) :
    ∃ e s', Step U cfg anySettler s e s' ∧ Settling ⟨s, e, s'⟩ ∧ s'.queue = s.queue ∧
      (s.closePromise = .flushing → s'.closePromise = .flushed) := by
  let b : BatchedSettlement := ⟨batch.items, totalValueOf batch.items, batch.reason, false, 0⟩
  have hs : ∃ s', s.onFlushed (.ok b) = some s' ∧ s'.queue = s.queue ∧
      (s.closePromise = .flushing → s'.closePromise = .flushed) := by
    simp only [onFlushed, hf]
    exact ⟨_, rfl, rfl, fun hp => by simp [hp]⟩
  obtain ⟨s', hstep, hq, hp⟩ := hs
  refine ⟨.flushed (.ok b), s', ⟨fun batch' hb r hr => ?_, hstep⟩, .inl ⟨b, rfl⟩, hq, hp⟩
  rw [hf] at hb
  cases hb
  cases hr
  rfl

theorem step_closeReturns (U : Unicode) (cfg : Config) (hp : s.closePromise = .flushed) :
    ∃ s', Step U cfg anySettler s .closeReturns s' ∧ s'.queue = s.queue ∧
      s'.closeResolved = true := by
  refine ⟨{ s with closePromise := .settled, closeResolved := true }, ⟨trivial, ?_⟩, rfl, rfl⟩
  simp [step, onCloseReturns, hp]

/-- The promise of `close()` resolves once the settlement it waits for does. -/
theorem close_returns (hp : ClosePhase s) (hc : s.closed = true) :
    ∃ tr s', Run (Step U cfg anySettler) s tr s' ∧ (∀ st ∈ tr, Settling st) ∧
      s'.queue = s.queue ∧ s'.closeResolved = true := by
  have hflushed : ∀ t : X402BatchClient, t.closePromise = .flushed →
      ∃ tr s', Run (Step U cfg anySettler) t tr s' ∧ (∀ st ∈ tr, Settling st) ∧
        s'.queue = t.queue ∧ s'.closeResolved = true := by
    intro t ht
    obtain ⟨s', hst, hq, hr⟩ := step_closeReturns U cfg ht
    exact ⟨_, s', Run.nil.snoc _ hst, by simp [Settling], hq, hr⟩
  cases hcp : s.closePromise with
  | notCalled => exact absurd hcp (hp.called hc)
  | settled => exact ⟨[], s, .nil, by simp, rfl, hp.settled hcp⟩
  | flushed => exact hflushed s hcp
  | flushing =>
    obtain ⟨batch, hf⟩ := Option.ne_none_iff_exists'.mp (hp.flushing hcp)
    obtain ⟨e, t, hst, hset, hq, ht⟩ := step_flushed U cfg hf
    obtain ⟨tr, s', hr, hsets, hq', hres⟩ := hflushed t (ht hcp)
    refine ⟨_, s', (Run.nil.snoc e hst).append hr, ?_, hq'.trans hq, hres⟩
    simpa using ⟨hset, hsets⟩

theorem Settling.succeeds {st : Trace.Step X402BatchClient Event} (h : Settling st) :
    Succeeds st := by
  rcases h with ⟨b, h⟩ | h <;> rw [Succeeds, h] <;> rfl

theorem Settling.drains {st : Trace.Step X402BatchClient Event} (h : Settling st) :
    Drains cfg st := by
  constructor
  · intro hev
    rcases h with ⟨b, h⟩ | h <;> rw [hev] at h <;> cases h
  · intro call auth _ ha
    rcases h with ⟨b, h⟩ | h <;> rw [h] at ha <;> cases ha

/-- Let a run without a rejected settlement stop anywhere and the promises in it resolve: the
client is drained exactly when every step drains. -/
theorem drained_iff (h : Run (Step U cfg anySettler) (new cfg) tr s)
    (hs : ∀ st ∈ tr, Succeeds st) :
    (∀ tr₁ tr₂ s₁ tr' s', tr = tr₁ ++ tr₂ → Run (Step U cfg anySettler) (new cfg) tr₁ s₁ →
      Run (Step U cfg anySettler) s₁ tr' s' → (∀ st ∈ tr', Settling st) →
      Drained cfg (tr₁ ++ tr') s') ↔ ∀ st ∈ tr, Drains cfg st := by
  constructor
  · intro hall st hst
    by_contra hd
    obtain ⟨tr₁, tr₂, rfl, hr, hstep, -⟩ := h.of_mem hst
    obtain ⟨hc, hq⟩ := queue_of_not_drains hstep hd
    have h₁ : Run (Step U cfg anySettler) (new cfg) (tr₁ ++ [st]) st.post := hr.snoc st.ev hstep
    have hs₁ : ∀ x ∈ tr₁ ++ [st], Succeeds x := by
      intro x hx
      apply hs x
      simp only [List.mem_append, List.mem_singleton] at hx
      simp only [List.mem_append, List.mem_cons]
      exact hx.imp_right .inl
    obtain ⟨tr', s', hr', hset, hq', hres⟩ := close_returns (closePhase h₁ hs₁) hc
    exact hq (hq'.symm.trans (hall _ tr₂ _ tr' s' (by simp) h₁ hr' hset hres).1)
  · rintro hd tr₁ tr₂ s₁ tr' s' rfl h₁ h' hset
    apply drained_of_drains (h₁.append h')
    · intro st hst
      rcases List.mem_append.mp hst with hst | hst
      · exact hs st (List.mem_append_left _ hst)
      · exact (hset st hst).succeeds
    · intro st hst
      rcases List.mem_append.mp hst with hst | hst
      · exact hd st (List.mem_append_left _ hst)
      · exact (hset st hst).drains

end Drain

namespace Demo

/-- The client is closed while a flush is in flight and an authorization waits in the queue. -/
def closedInFlight : List (Event ⊕ ℤ) :=
  paying 0 ++ paying 1 ++ [paid 0, .inl .flush, paid 1, .inl .close, .inr 1002, .inl .closeReturns]

theorem closedInFlight_queue : ∃ tr s,
    Run (Step .ascii (config .manual) anySettler) (new (config .manual)) tr s ∧
      (∀ st ∈ tr, Succeeds st) ∧ s.closeResolved = true ∧ s.queue ≠ [] := by
  have h : (play ⟨none⟩ .manual closedInFlight).map (fun r => (r.2.closeResolved,
      r.2.queue.length, r.1.all fun st => rejects st.ev = false)) = some (true, 1, true) := by
    decide +kernel
  obtain ⟨r, hr, hv⟩ := Option.map_eq_some_iff.mp h
  simp only [Prod.mk.injEq, List.all_eq_true, decide_eq_true_eq] at hv
  obtain ⟨hres, hlen, hsucc⟩ := hv
  refine ⟨r.1, r.2, (run_of_play hr).mono fun _ _ _ => Step.any, hsucc, hres, fun hq => ?_⟩
  rw [hq] at hlen
  cases hlen

/-- The promise of `close()` resolves, and an accepted authorization is still in the queue. -/
theorem not_drained : ¬ ∀ (U : Unicode) (cfg : Config)
    (tr : List (Trace.Step X402BatchClient Event)) (s : X402BatchClient),
    Run (Step U cfg anySettler) (new cfg) tr s → (∀ st ∈ tr, Succeeds st) → Drained cfg tr s := by
  intro hall
  obtain ⟨tr, s, hr, hs, hres, hq⟩ := closedInFlight_queue
  exact hq (hall _ _ tr s hr hs hres).1

/-- The client is closed with an authorization in the queue, after the flush of another. -/
def closedIdle : List (Event ⊕ ℤ) :=
  paying 0 ++ paying 1 ++ [paid 0, .inl .flush, .inr 1002, paid 1, .inl .close, .inr 1003,
    .inl .closeReturns]

theorem closedIdle_flushed : ∃ tr s,
    Run (Step .ascii (config .manual) anySettler) (new (config .manual)) tr s ∧
      (∀ st ∈ tr, Succeeds st) ∧ s.closeResolved = true ∧ (allSettled tr).length = 2 ∧
      ∀ st ∈ tr, Drains (config .manual) st := by
  have h : (play ⟨none⟩ .manual closedIdle).map (fun r => (r.2.closeResolved,
      (allSettled r.1).length, r.1.all fun st => rejects st.ev = false,
      r.1.all fun st => ¬ st.post.closed ∨ st.post.queue.length = 0)) =
        some (true, 2, true, true) := by
    decide +kernel
  obtain ⟨r, hr, hv⟩ := Option.map_eq_some_iff.mp h
  simp only [Prod.mk.injEq, List.all_eq_true, decide_eq_true_eq] at hv
  obtain ⟨hres, hlen, hsucc, hqueue⟩ := hv
  have hrun := (run_of_play hr).mono fun _ _ _ => Step.any
  refine ⟨r.1, r.2, hrun, hsucc, hres, hlen, fun st hst => ?_⟩
  obtain ⟨-, -, -, -, hstep, -⟩ := hrun.of_mem hst
  by_contra hdrains
  obtain ⟨hclosed, hne⟩ := queue_of_not_drains hstep hdrains
  exact (hqueue st hst).elim (fun h => h hclosed) fun h => hne (List.length_eq_zero_iff.mp h)

/-- Some step of the first run does not drain; each step of the second does, and it settles both
authorizations. -/
theorem closedInFlight_drains :
    (∃ tr s, Run (Step .ascii (config .manual) anySettler) (new (config .manual)) tr s ∧
      (∀ st ∈ tr, Succeeds st) ∧ ¬ ∀ st ∈ tr, Drains (config .manual) st) ∧
    ∃ tr s, Run (Step .ascii (config .manual) anySettler) (new (config .manual)) tr s ∧
      (∀ st ∈ tr, Succeeds st) ∧ s.closeResolved = true ∧ (allSettled tr).length = 2 ∧
      Drained (config .manual) tr s := by
  constructor
  · obtain ⟨tr, s, hr, hs, hres, hq⟩ := closedInFlight_queue
    refine ⟨tr, s, hr, hs, fun hd => hq ?_⟩
    have hdr := (drained_iff hr hs).mpr hd tr [] s [] s (by simp) hr .nil (by simp)
    exact (hdr hres).1
  · obtain ⟨tr, s, hr, hs, hres, hlen, hd⟩ := closedIdle_flushed
    have hdr := (drained_iff hr hs).mpr hd tr [] s [] s (by simp) hr .nil (by simp)
    rw [List.append_nil] at hdr
    exact ⟨tr, s, hr, hs, hres, hlen, hdr⟩

end Demo

end X402BatchClient
end X402
end Arcane
