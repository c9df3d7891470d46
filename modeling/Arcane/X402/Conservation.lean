import Arcane.Lib.Run
import Arcane.X402.Effect

/-!
# What becomes of an accepted authorization

The client holds the batch in flight and the queue (`held`). A step adds to what is held what it
enqueues, and takes away a batch whose settlement resolved (`settled`) or was rejected (`dropped`);
so all that was ever enqueued is settled, dropped or held (`enqueued_eq`). The queue is emptied
before the settlement is known, and a rejected batch is not put back: the client conserves its
authorizations exactly as long as no batch that holds one is rejected (`conserved_iff`).
-/

namespace Arcane
namespace X402
namespace X402BatchClient

open Text Trace

/-- The authorization that a step enqueues. -/
def enqueued (cfg : Config) (s : X402BatchClient) (e : Event) : List PaymentAuthorization :=
  match s.accepted e with
  | some (call, auth) => if effectiveMode cfg call = .immediate then [] else [auth]
  | none => []

/-- The batch whose settlement promise resolves in a step. -/
def settled : Event → List PaymentAuthorization
  | .flushed (.ok b) => b.items
  | _ => []

/-- The batch whose settlement promise is rejected in a step. -/
def dropped (s : X402BatchClient) : Event → List PaymentAuthorization
  | .flushed (.error _) => (s.flushInFlight.map (·.items)).getD []
  | _ => []

/-- The authorizations in the queue. -/
def pending (s : X402BatchClient) : List PaymentAuthorization := s.queue.map (·.auth)

/-- The batch in flight, then the queue. -/
def held (s : X402BatchClient) : List PaymentAuthorization :=
  (s.flushInFlight.map (·.items)).getD [] ++ s.pending

section Held

variable {U : Unicode} {cfg : Config} {s s' : X402BatchClient} {e : Event} {id : ℕ}
  {call : PayCall} {auth : PaymentAuthorization} {url : Str} {now : ℤ}

theorem held_idle (h : s.flushInFlight = none) : s.held = s.pending := by simp [held, h]

@[simp]
theorem held_setStage (stage : Stage) : (s.setStage id call stage).held = s.held := rfl

@[simp]
theorem held_reject (err : X402Error) : (s.reject id call err).held = s.held := rfl

@[simp]
theorem held_enqueue : (s.enqueue auth url now).held = s.held ++ [auth] := by
  simp [held, pending, enqueue]

@[simp]
theorem held_flush (reason : Reason) : (s.flush reason).held = s.held := by
  unfold flush
  split
  · rfl
  · next h =>
    have hn : s.flushInFlight = none := by simpa using h
    simp [held, pending, doFlush, hn]

@[simp]
theorem held_flushBySize : (s.flushBySize cfg).held = s.held := by
  unfold flushBySize
  split
  · apply held_flush
  · rfl

@[simp]
theorem held_maybeFlushByAge : (s.maybeFlushByAge cfg now).held = s.held := by
  unfold maybeFlushByAge
  split
  · rfl
  · split
    · apply held_flush
    · rfl

@[simp]
theorem held_close : s.close.held = s.held := by
  unfold close
  split
  · rfl
  · exact held_flush (s := { s with closed := true, ageTimer := false }) .shutdown

theorem held_accept : (s.accept cfg id call auth now).held =
    s.held ++ if effectiveMode cfg call = .immediate then [] else [auth] := by
  unfold accept
  cases effectiveMode cfg call <;> simp

/-- An event about a call of `pay` settles no batch. -/
theorem settled_ofPay (h : e.ofPay = true) : settled e = [] ∧ dropped s e = [] := by
  cases e <;> first | exact ⟨rfl, rfl⟩ | cases h

/-- What is held before a step and enqueued in it is settled, dropped or held after it. -/
theorem held_step (h : Step U cfg anySettler s e s') :
    s.held ++ enqueued cfg s e = (settled e ++ dropped s e) ++ s'.held := by
  cases change h.2 with
  | call calls hp ha =>
    obtain ⟨hs, hd⟩ := settled_ofPay (s := s) hp
    have he : enqueued cfg s e = [] := by simp [enqueued, ha]
    rw [he, hs, hd]
    simp [held, pending]
  | accept id now hp ha =>
    obtain ⟨hs, hd⟩ := settled_ofPay (s := s) hp
    rw [held_accept, hs, hd]
    simp [enqueued, ha]
  | flushed hf hs =>
    next result batch =>
    simp only [onFlushed, hf] at hs
    cases hs
    have hi := h.1 batch hf
    cases result with
    | error err => simp [enqueued, accepted, settled, dropped, held, pending, hf]
    | ok b => simp [enqueued, accepted, settled, dropped, held, pending, hf, hi b rfl]
  | closeReturns hp => simp [enqueued, accepted, settled, dropped, held, pending]
  | _ => simp [enqueued, accepted, settled, dropped]

end Held

section Runs

variable {U : Unicode} {cfg : Config} {tr : List (Trace.Step X402BatchClient Event)}
  {s : X402BatchClient}

/-- All that was enqueued so far, in order. -/
def allEnqueued (cfg : Config) (tr : List (Trace.Step X402BatchClient Event)) :
    List PaymentAuthorization :=
  tr.flatMap fun st => enqueued cfg st.pre st.ev

/-- The batches whose settlement promise resolved, one after the other. -/
def allSettled (tr : List (Trace.Step X402BatchClient Event)) : List PaymentAuthorization :=
  tr.flatMap fun st => settled st.ev

/-- The batches whose settlement promise was rejected. -/
def allDropped (tr : List (Trace.Step X402BatchClient Event)) : List PaymentAuthorization :=
  tr.flatMap fun st => dropped st.pre st.ev

theorem enqueued_eq (h : Run (Step U cfg anySettler) (new cfg) tr s) :
    allEnqueued cfg tr =
      (tr.flatMap fun st => settled st.ev ++ dropped st.pre st.ev) ++ s.held := by
  refine h.history (P := fun tr s => allEnqueued cfg tr =
    (tr.flatMap fun st => settled st.ev ++ dropped st.pre st.ev) ++ s.held) rfl ?_
  intro tr s e s' _ ih hst
  have hs := held_step hst
  simp only [allEnqueued, List.flatMap_append, List.flatMap_cons, List.flatMap_nil,
    List.append_nil] at ih ⊢
  rw [ih, List.append_assoc, hs, ← List.append_assoc]

/-- Each authorization that was enqueued is counted once: settled, dropped or held. -/
theorem count_enqueued (h : Run (Step U cfg anySettler) (new cfg) tr s)
    (a : PaymentAuthorization) : (allEnqueued cfg tr).count a =
      (allSettled tr).count a + (allDropped tr).count a + s.held.count a := by
  have hp : List.Perm (allSettled tr ++ allDropped tr)
      (tr.flatMap fun st => settled st.ev ++ dropped st.pre st.ev) :=
    List.flatMap_append_perm tr _ _
  rw [enqueued_eq h, List.count_append, ← hp.count_eq, List.count_append]

/-- With no flush in flight, each enqueued authorization is in the queue or in exactly one batch
whose settlement promise resolved. -/
def Conserved (cfg : Config) (tr : List (Trace.Step X402BatchClient Event)) (s : X402BatchClient) :
    Prop :=
  s.flushInFlight = none → ∀ a : PaymentAuthorization,
    (allEnqueued cfg tr).count a = s.pending.count a + (allSettled tr).count a

/-- No batch that holds an authorization is rejected. -/
def NoLoss (st : Trace.Step X402BatchClient Event) : Prop :=
  ∀ err batch, st.ev = .flushed (.error err) → st.pre.flushInFlight = some batch →
    batch.items = []

theorem dropped_eq_nil_iff {st : Trace.Step X402BatchClient Event} :
    dropped st.pre st.ev = [] ↔ NoLoss st := by
  cases hev : st.ev with
  | flushed result =>
    cases result with
    | error err =>
      cases hf : st.pre.flushInFlight with
      | none => simp [dropped, NoLoss, hf]
      | some batch => simp [dropped, NoLoss, hev, hf]
    | ok b => simp [dropped, NoLoss, hev]
  | _ => simp [dropped, NoLoss, hev]

/-- Only the settlement of a batch that is in flight is known. -/
theorem idle_of_dropped {e : Event} {s' : X402BatchClient} (h : Step U cfg anySettler s e s')
    (hd : dropped s e ≠ []) : s'.flushInFlight = none := by
  cases e with
  | flushed result =>
    have hs := h.2
    simp only [step, onFlushed] at hs
    split at hs
    · cases hs
    · cases hs
      rfl
  | _ => exact absurd rfl hd

theorem conserved_of_noLoss (h : Run (Step U cfg anySettler) (new cfg) tr s)
    (hn : ∀ st ∈ tr, NoLoss st) : Conserved cfg tr s := by
  intro hf a
  have hd : allDropped tr = [] :=
    List.flatMap_eq_nil_iff.mpr fun st hst => dropped_eq_nil_iff.mpr (hn st hst)
  have hc := count_enqueued h a
  rw [hd, held_idle hf, List.count_nil] at hc
  omega

/-- A batch that is dropped is conserved by no later state. -/
theorem noLoss_of_conserved {st : Trace.Step X402BatchClient Event}
    (h : Run (Step U cfg anySettler) (new cfg) (tr ++ [st]) s) (hc : Conserved cfg (tr ++ [st]) s) :
    NoLoss st := by
  rw [← dropped_eq_nil_iff]
  by_contra hd
  obtain ⟨-, hst, rfl⟩ := h.snoc_inv
  have hidle := idle_of_dropped hst hd
  obtain ⟨a, ha⟩ := List.exists_mem_of_ne_nil _ hd
  have hcount := count_enqueued h a
  rw [hc hidle a, held_idle hidle] at hcount
  have hmem : a ∈ allDropped (tr ++ [st]) := List.mem_flatMap.mpr ⟨st, by simp, ha⟩
  have hpos := List.count_pos_iff.mpr hmem
  omega

/-- The client conserves its authorizations in every state of a run exactly when no batch that
holds one is rejected in it. -/
theorem conserved_iff (h : Run (Step U cfg anySettler) (new cfg) tr s) :
    (∀ tr₁ tr₂ s₁, tr = tr₁ ++ tr₂ → Run (Step U cfg anySettler) (new cfg) tr₁ s₁ →
      Conserved cfg tr₁ s₁) ↔ ∀ st ∈ tr, NoLoss st := by
  constructor
  · intro hc st hst
    obtain ⟨tr₁, tr₂, rfl, hr, hs, -⟩ := h.of_mem hst
    have h₁ : Run (Step U cfg anySettler) (new cfg) (tr₁ ++ [st]) st.post := hr.snoc st.ev hs
    exact noLoss_of_conserved h₁ (hc _ tr₂ _ (by simp) h₁)
  · rintro hn tr₁ tr₂ s₁ rfl h₁
    exact conserved_of_noLoss h₁ fun st hst => hn st (List.mem_append_left _ hst)

end Runs

/-! ## Runs with the client's own settler -/

section Play

variable (U : Unicode) (cfg : Config) (c : CircleGatewaySettler)

/-- An event other than a settlement, or the settlement of the batch in flight at a time. -/
def event (s : X402BatchClient) : Event ⊕ ℤ → Option Event
  | .inl (.flushed _) => none
  | .inl e => some e
  | .inr now => s.flushInFlight.map fun batch =>
    .flushed (c.settle batch.items batch.reason now)

def playStep (s : X402BatchClient) (i : Event ⊕ ℤ) : Option (Event × X402BatchClient) :=
  (s.event c i).bind fun e => (step U cfg s e).map (e, ·)

variable {U cfg c}

theorem settles_event {s : X402BatchClient} {i : Event ⊕ ℤ} {e : Event}
    (h : s.event c i = some e) : s.Settles c.settles e := by
  cases i with
  | inl e' =>
    cases e' with
    | flushed result => cases h
    | _ => cases h; trivial
  | inr now =>
    obtain ⟨batch, hb, rfl⟩ := Option.map_eq_some_iff.mp h
    intro batch' hb'
    rw [hb] at hb'
    cases hb'
    exact ⟨now, rfl⟩

theorem step_of_playStep {s s' : X402BatchClient} {i : Event ⊕ ℤ} {e : Event}
    (h : playStep U cfg c s i = some (e, s')) : Step U cfg c.settles s e s' := by
  obtain ⟨e', he, h⟩ := Option.bind_eq_some_iff.mp h
  obtain ⟨t, hs, ht⟩ := Option.map_eq_some_iff.mp h
  cases ht
  exact ⟨settles_event he, hs⟩

theorem Step.any {s s' : X402BatchClient} {e : Event} (h : Step U cfg c.settles s e s') :
    Step U cfg anySettler s e s' := by
  refine ⟨?_, h.2⟩
  cases e with
  | flushed result => exact fun batch hb => CircleGatewaySettler.anySettler (h.1 batch hb)
  | _ => trivial

/-- Without a Gateway key no batch is rejected, and every run conserves the authorizations. -/
theorem conserved_of_digest_only {tr : List (Trace.Step X402BatchClient Event)}
    {s : X402BatchClient} (hc : c.canBroadcast = false)
    (h : Run (Step U cfg c.settles) (new cfg) tr s) : Conserved cfg tr s := by
  apply conserved_of_noLoss (h.mono fun _ _ _ => Step.any)
  intro st hst err batch hev hf
  obtain ⟨-, -, -, -, hstep, -⟩ := h.of_mem hst
  have hset := hstep.1
  rw [hev] at hset
  obtain ⟨flushedAt, hr⟩ := hset batch hf
  by_contra hi
  have hb := CircleGatewaySettler.settle_error_iff.mp ⟨err, hr.symm⟩
  rw [hc] at hb
  exact Bool.false_ne_true hb.2

end Play

namespace Demo

/-- A client with no age timer. -/
def config (batchMode : BatchMode) : Config where
  address := lit "0x7E5F4552091A69125d5DfCb7b8C2659029395Bdf"
  chainId := 5042002
  network := lit "arc-testnet"
  usdcAddress := lit "0x3600000000000000000000000000000000000000"
  batchMode
  maxBatchSize := 100
  maxBatchAgeSeconds := 30

def entry : PaymentRequirements where
  scheme := lit "exact"
  network := lit "arc-testnet"
  maxAmountRequired := lit "1000"
  resource := lit "/query"
  description := lit "RaBitQ dark pool query"
  mimeType := lit "application/json"
  payTo := lit "0x2B5AD5c4795c026514f8317c7a215E218DcCD6cF"
  maxTimeoutSeconds := 60
  asset := lit "0x3600000000000000000000000000000000000000"
  extra := ⟨some (lit "USDC"), some (lit "2"), none⟩

/-- A `pay()` up to the paid response, which a server accepts. -/
def paying (id : ℕ) : List (Event ⊕ ℤ) :=
  [.inl (.pay id (lit "http://pool/query") ⟨lit "0.001", none, none⟩), .inl (.response id 402),
    .inl (.json id (.accepts [entry]) 1000 (lit "0x01")), .inl (.signature id (some (lit "0x51"))),
    .inl (.response id 200)]

/-- The 200 body is read, and the authorization goes to the queue. -/
def paid (id : ℕ) : Event ⊕ ℤ := .inl (.json id .noAccepts 1001 [])

def play (c : CircleGatewaySettler) (batchMode : BatchMode) (is : List (Event ⊕ ℤ)) :
    Option (List (Trace.Step X402BatchClient Event) × X402BatchClient) :=
  Run.exec (playStep .ascii (config batchMode) c) (new (config batchMode)) is

theorem run_of_play {c : CircleGatewaySettler} {batchMode : BatchMode} {is : List (Event ⊕ ℤ)}
    {r : List (Trace.Step X402BatchClient Event) × X402BatchClient}
    (h : play c batchMode is = some r) :
    Run (Step .ascii (config batchMode) c.settles) (new (config batchMode)) r.1 r.2 :=
  Run.of_exec (f := playStep .ascii (config batchMode) c) (fun _ _ _ _ => step_of_playStep) h

/-- A payment, a manual flush and its settlement. -/
def flushed : List (Event ⊕ ℤ) := paying 0 ++ [paid 0, .inl .flush, .inr 1002]

/-- Without a Gateway key the batch is settled, and its authorization is in it. -/
theorem flushed_conserved : ∃ tr s, Run (Step .ascii (config .manual) anySettler)
    (new (config .manual)) tr s ∧ (allEnqueued (config .manual) tr).length = 1 ∧
    s.flushInFlight = none ∧ Conserved (config .manual) tr s := by
  have h : (play ⟨none⟩ .manual flushed).map (fun r => (r.2.flushInFlight.isNone,
      (allEnqueued (config .manual) r.1).length,
      r.1.all fun st => dropped st.pre st.ev = [])) = some (true, 1, true) := by decide +kernel
  obtain ⟨r, hr, hv⟩ := Option.map_eq_some_iff.mp h
  simp only [Prod.mk.injEq, Option.isNone_iff_eq_none, List.all_eq_true, decide_eq_true_eq] at hv
  obtain ⟨hidle, hlen, hdropped⟩ := hv
  have hrun := (run_of_play hr).mono fun _ _ _ => Step.any
  refine ⟨r.1, r.2, hrun, hlen, hidle, ?_⟩
  have hn := fun st hst => dropped_eq_nil_iff.mp (hdropped st hst)
  exact (conserved_iff hrun).mpr hn r.1 [] r.2 (by simp) hrun

/-- With a Gateway key the batch is rejected, and its authorization is nowhere. -/
theorem not_conserved : ¬ ∀ (U : Unicode) (cfg : Config) (c : CircleGatewaySettler)
    (tr : List (Trace.Step X402BatchClient Event)) (s : X402BatchClient),
    Run (Step U cfg c.settles) (new cfg) tr s → Conserved cfg tr s := by
  intro hall
  have h : (play ⟨some (lit "0x01")⟩ .manual flushed).map (fun r => (r.2.flushInFlight.isNone,
      (allEnqueued (config .manual) r.1).length, r.2.pending.length,
      (allSettled r.1).length)) = some (true, 1, 0, 0) := by decide +kernel
  obtain ⟨r, hr, hv⟩ := Option.map_eq_some_iff.mp h
  simp only [Prod.mk.injEq, Option.isNone_iff_eq_none, List.length_eq_zero_iff] at hv
  obtain ⟨hidle, hlen, hpending, hsettled⟩ := hv
  obtain ⟨a, ha⟩ := List.length_eq_one_iff.mp hlen
  have hc := hall _ _ _ r.1 r.2 (run_of_play hr) hidle a
  simp [ha, hpending, hsettled] at hc

end Demo

end X402BatchClient
end X402
end Arcane
