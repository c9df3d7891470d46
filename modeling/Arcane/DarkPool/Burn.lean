import Arcane.DarkPool.Replay

/-!
# A nonce is burned when the buyer is served

The nonce goes into the store before the memory is asked and the answer is rendered. The memory
does not fail a request that was admitted, but `JSONResponse` does on what other buyers have stored.

* `status_answer`: the answers that are rendered.
* `burned_iff_served`: a run burns the nonce of each request that is answered with a 200, and no
  other, exactly when every answer after a commit is rendered.
* `Demo.unserved_burned`: a paid query that burns its nonce and is answered with a 500.
-/

namespace Arcane
namespace DarkPool

open Text Python Memory Registry Trace

variable {F E : Type} [Json.FloatText F]

/-- `JSONResponse` renders the result `(tid, score)` of a query of the memory. -/
structure Renders (memory : MemoryService F E) (r : Str × Double F) : Prop where
  traceId : ∀ c ∈ r.1, IsScalar c
  score : ∃ x, r.2 = .finite x
  payload : ∀ e, memory.entries.get? r.1 = some e →
    Json.Finite (.obj e.payload) ∧ Json.Scalar (.obj e.payload)

/-- The answer of a call can be rendered: no result of a query, and no trace id of an `/add`, holds
a number that is not finite or a surrogate. -/
def Call.Renders (N : Numerics F E) (memory : MemoryService F E) : Call F E → Prop
  | .query vec k => ∀ results, (memory.query N vec k).2 = some results →
    ∀ r ∈ results, DarkPool.Renders memory r
  | .add traceId _ _ _ => ∀ c ∈ traceId, IsScalar c

/-- What the handlers check of a call before the payment. -/
def Call.Checked (dim : ℕ) : Call F E → Prop
  | .query vec k => vec.length = dim ∧ 0 < k
  | .add _ vec kind payload =>
    vec.length = dim ∧ kind ∈ App.workingKinds ∧ Json.Keyed (.obj payload)

namespace App

variable {A : App F E} {s s₀ s' : State F E} {e : Event F} {p : Paid F E} {i : ℕ}
  {tr : List (Trace.Step (State F E) (Event F))}

section Answers

omit [Json.FloatText F] in
theorem renders_iff {memory : MemoryService F E} {r : Str × Double F} :
    Json.Finite (resultContent memory r) ∧ Json.Scalar (resultContent memory r) ↔
      Renders memory r := by
  have hkeys : Json.scalarHere (resultContent memory r) :=
    Json.scalar_keys ["trace_id", "score", "payload"] (by decide)
  have hscore : Json.Finite (.float r.2) ↔ ∃ x, r.2 = .finite x := by
    cases r.2 <;> simp [Json.Finite, Json.All, Json.finiteHere]
  have hpayload : (Json.Finite (.obj ((memory.entries.get? r.1).elim [] (·.payload))) ∧
      Json.Scalar (.obj ((memory.entries.get? r.1).elim [] (·.payload)))) ↔
      ∀ e, memory.entries.get? r.1 = some e →
        Json.Finite (.obj e.payload) ∧ Json.Scalar (.obj e.payload) := by
    cases memory.entries.get? r.1 with
    | none => simp [Json.Finite, Json.Scalar, Json.All, Json.AllMembers, Json.finiteHere,
        Json.scalarHere, Assoc.keys]
    | some e => simp
  constructor
  · rintro ⟨hfinite, hscalar⟩
    obtain ⟨-, hfinite⟩ := Json.all_obj.mp hfinite
    obtain ⟨-, hscalar⟩ := Json.all_obj.mp hscalar
    simp only [List.forall_mem_cons] at hfinite hscalar
    exact ⟨hscalar.1, hscore.mp hfinite.2.1, hpayload.mp ⟨hfinite.2.2.1, hscalar.2.2.1⟩⟩
  · rintro ⟨hid, hfloat, hobj⟩
    have hobj := hpayload.mpr hobj
    refine ⟨Json.all_obj.mpr ⟨trivial, ?_⟩, Json.all_obj.mpr ⟨hkeys, ?_⟩⟩
    · simp only [List.forall_mem_cons]
      exact ⟨trivial, hscore.mpr hfloat, hobj.1, by simp⟩
    · simp only [List.forall_mem_cons]
      exact ⟨hid, trivial, hobj.2, by simp⟩

/-- A query that was checked is answered, and its answer is rendered when its results are. -/
theorem status_answerQuery {vec : List E} {k : ℤ} (hlen : vec.length = s.memory.dim)
    (hk : 0 < k) : (A.answerQuery s vec k).2.status = 200 ↔
      (Call.query vec k).Renders A.numerics s.memory := by
  obtain ⟨results, hresults⟩ := Option.isSome_iff_exists.mp
    (MemoryService.query_isSome (N := A.numerics) hlen hk)
  have hentries : resultContent (s.memory.query A.numerics vec k).1 = resultContent s.memory := by
    funext r
    simp only [resultContent, MemoryService.entries_query]
  simp only [answerQuery, hresults, hentries, Call.Renders, Option.some.injEq, forall_eq']
  refine status_jsonResponse_ok.trans ⟨?_, fun h => ?_⟩
  · rintro ⟨hfinite, hscalar⟩ r hr
    have hfinite := (Json.all_obj.mp hfinite).2 _ (List.mem_singleton_self _)
    have hscalar := (Json.all_obj.mp hscalar).2 _ (List.mem_singleton_self _)
    exact renders_iff.mp ⟨(Json.all_arr.mp hfinite).2 _ (List.mem_map_of_mem hr),
      (Json.all_arr.mp hscalar).2 _ (List.mem_map_of_mem hr)⟩
  · have hresult : ∀ v ∈ results.map (resultContent s.memory), Json.Finite v ∧ Json.Scalar v := by
      rintro _ hv
      obtain ⟨r, hr, rfl⟩ := List.mem_map.mp hv
      exact renders_iff.mpr (h r hr)
    constructor
    · refine Json.all_obj.mpr ⟨trivial, ?_⟩
      rw [List.forall_mem_singleton]
      exact Json.all_arr.mpr ⟨trivial, fun v hv => (hresult v hv).1⟩
    · apply Json.scalar_obj ["results"] rfl (by decide)
      rw [List.forall_mem_singleton]
      exact Json.all_arr.mpr ⟨trivial, fun v hv => (hresult v hv).2⟩

omit [Json.FloatText F] in
theorem finite_addedContent {memory : MemoryService F E} {traceId signer : Str} :
    Json.Finite (addedContent memory traceId signer) := by
  refine Json.all_obj.mpr ⟨trivial, ?_⟩
  simp only [List.forall_mem_cons]
  exact ⟨trivial, trivial, trivial, trivial, by simp⟩

omit [Json.FloatText F] in
theorem scalar_addedContent {memory : MemoryService F E} {traceId signer : Str}
    (hsigner : isAscii signer) :
    Json.Scalar (addedContent memory traceId signer) ↔ ∀ c ∈ traceId, IsScalar c := by
  constructor
  · intro h
    exact scalar_of_get "trace_id" h rfl
  · intro h
    apply Json.scalar_obj ["ok", "trace_id", "memory_entries", "signer"] rfl (by decide)
    simp only [List.forall_mem_cons]
    exact ⟨trivial, h, trivial, fun c hc => Json.isScalar_of_lt (hsigner c hc), by simp⟩

/-- The memory takes an entry that was checked. -/
theorem status_answerAdd {now : Double F} {signer traceId : Str} {vec : List E} {kind : Str}
    {payload : Payload F} (hsigner : isAscii signer) (hlen : vec.length = s.memory.dim)
    (hkind : kind ∈ workingKinds) :
    (A.answerAdd s now signer traceId vec kind payload).2.status = 200 ↔
      ∀ c ∈ traceId, IsScalar c := by
  have hvalid : kind ∈ validKinds := by
    rw [validKinds]
    exact List.mem_of_mem_dropLast hkind
  cases hadd : s.memory.add A.numerics now traceId vec kind false (some payload) with
  | none => exact absurd ⟨hvalid, hlen⟩ (MemoryService.add_eq_none hadd)
  | some memory =>
    simp only [answerAdd, hadd]
    rw [status_jsonResponse_ok, scalar_addedContent hsigner]
    exact and_iff_right finite_addedContent

/-- What is known of a request that waits for the limiter. -/
structure Checked (s : State F E) (p : Paid F E) : Prop where
  call : p.call.Checked s.memory.dim
  signer : isAscii p.valid.signer

/-- The answers that are rendered. -/
theorem status_answer {now : Double F} (h : Checked s p) :
    (A.answer s now p).2.status = 200 ↔ p.call.Renders A.numerics s.memory := by
  obtain ⟨hcall, hsigner⟩ := h
  unfold answer
  cases hp : p.call with
  | query vec k =>
    rw [hp] at hcall
    exact status_answerQuery hcall.1 hcall.2
  | add traceId vec kind payload =>
    rw [hp] at hcall
    exact status_answerAdd hsigner hcall.1 hcall.2.1

end Answers

section Checks

omit [Json.FloatText F] in
theorem checked_of_requestCall {r : Request F} {c : Call F E} (h : A.requestCall s r = .ok c) :
    c.Checked s.memory.dim := by
  unfold requestCall at h
  split at h
  · cases h
  · next body _ =>
    split at h
    · unfold queryCall at h
      split at h
      · cases h
      · next q _ =>
        split at h
        · cases h
        · next hlen =>
          cases h
          exact ⟨by simpa using hlen, q.one_le_k⟩
    · unfold addCall at h
      split at h
      · cases h
      · next b _ =>
        split_ifs at h with hlen hkind
        cases h
        exact ⟨by simpa using hlen, hkind, b.keyed_payload⟩

/-- The signer of an accepted payment is an ASCII text. -/
theorem isAscii_signer {now : ℤ} {r : Request F} {v : Valid F} (h : A.payment s now r = .ok v) :
    isAscii v.signer := by
  obtain ⟨_, members, -, -, hvalid⟩ := payment_eq_ok h
  obtain ⟨q, recovered, d, -, -, hsigned, rfl⟩ := Parts.validateSignature_eq_ok.mp hvalid
  obtain ⟨digest, hrecovers⟩ := recoverSigner_eq_ok.mp hsigned.recovers
  exact isAscii_lower _ (A.interpreter.account.recover_ascii _ _ _ hrecovers.recover)

omit [Json.FloatText F] in
theorem dim_advised {agentId : ℤ} {body : Json F} {now : Double F} :
    (A.advised s agentId body now).dim = s.memory.dim := by
  unfold advised
  cases h : (A.packages.adviceBody body).bind
      (publishAdvice A.numerics A.packages s.memory now agentId) with
  | none => rfl
  | some memory =>
    obtain ⟨b, -, hpublish⟩ := Option.bind_eq_some_iff.mp h
    obtain ⟨vec, -, hpublish⟩ := Option.bind_eq_some_iff.mp hpublish
    obtain ⟨traceId, -, hadd⟩ := Option.bind_eq_some_iff.mp hpublish
    exact MemoryService.dim_add hadd

theorem dim_answer {now : Double F} : (A.answer s now p).1.dim = s.memory.dim := by
  unfold answer
  split
  · exact MemoryService.dim_query _ _
  · unfold answerAdd
    split
    · rfl
    · next memory hadd => exact MemoryService.dim_add hadd

theorem dim_of_effect (h : Effect A s e s') : s'.memory.dim = s.memory.dim := by
  cases h with
  | commit => exact dim_answer
  | advice => exact dim_advised
  | _ => rfl

/-- Every request that waits for the limiter was checked. -/
theorem checked_of_run (h : Run A.Step s₀ tr s) (h₀ : s₀.requests = []) :
    ∀ p, Pending s p → Checked s p := by
  apply h.invariant (I := fun s => ∀ p, Pending s p → Checked s p)
  · simp [Pending, h₀]
  · intro s e s' ih hstep p hp
    have heffect := effect hstep
    have hdim := dim_of_effect heffect
    rcases pending_of_effect heffect hp with hp | ⟨i, now, monotonic, r, -, -, -, hadmission⟩
    · obtain ⟨hcall, hsigner⟩ := ih p hp
      exact ⟨hdim ▸ hcall, hsigner⟩
    · obtain ⟨hcall, hpayment⟩ := admission_eq_ok hadmission
      exact ⟨hdim ▸ checked_of_requestCall hcall, isAscii_signer hpayment⟩

end Checks

section Steps

/-- The event is a step of the request `i`. -/
def Event.Of (s : State F E) (i : ℕ) : Event F → Prop
  | .arrive _ => s.requests.length = i
  | .read j _ _ => j = i
  | .consume j _ _ => j = i
  | .retry j => j = i
  | .purge _ => False
  | .advice _ _ _ => False

omit [Json.FloatText F] in
theorem Commits.unique {q : Paid F E} (h : Commits A s i p) (h' : Commits A s i q) : p = q := by
  obtain ⟨asked, hstage, -⟩ := h.stage
  obtain ⟨asked', hstage', -⟩ := h'.stage
  cases hstage.symm.trans hstage'
  rfl

/-- The step commits the nonce of the request `i` and answers it. -/
def CommitStep (A : App F E) (st : Trace.Step (State F E) (Event F)) (i : ℕ) (reply : Reply) :
    Prop :=
  ∃ now monotonic limiter p, st.ev = .consume i now monotonic ∧ Commits A st.pre i p ∧
    st.pre.store.rows.get? (p.valid.key A.interpreter A.config) = none ∧
    st.post = A.served st.pre limiter i now p ∧ reply = (A.answer st.pre now p).2

/-- A step of a request changes the store when it commits. -/
theorem store_of_step (h : Effect A s e s') (he : e.Of s i) :
    s'.store = s.store ∨ ∃ reply, CommitStep A ⟨s, e, s'⟩ i reply := by
  cases h with
  | @commit j now monotonic p limiter hcommits hnone =>
    obtain rfl : j = i := he
    exact .inr ⟨_, now, monotonic, limiter, p, rfl, hcommits, hnone, rfl, rfl⟩
  | purge => exact he.elim
  | _ => exact .inl rfl

theorem CommitStep.answers {st : Trace.Step (State F E) (Event F)} {reply : Reply}
    (h : CommitStep A st i reply) : st.post.requests[i]? = some (.answered reply) := by
  obtain ⟨now, monotonic, limiter, p, -, hcommits, -, hpost, rfl⟩ := h
  obtain ⟨asked, hstage, -⟩ := hcommits.stage
  have hi : i < st.pre.requests.length := (List.getElem?_eq_some_iff.mp hstage).1
  rw [hpost, served, List.getElem?_set_self hi]

/-- An answered request stays so. -/
theorem answered_step {reply : Reply} (h : Effect A s e s')
    (hs : s.requests[i]? = some (.answered reply)) : s'.requests[i]? = some (.answered reply) := by
  have hset {j : ℕ} {stage stage' : Stage F E} (hj : s.requests[j]? = some stage)
      (hne : stage ≠ .answered reply) : (s.requests.set j stage')[i]? = some (.answered reply) := by
    rw [List.getElem?_set_ne, hs]
    rintro rfl
    exact hne (Option.some.inj (hj.symm.trans hs))
  cases h with
  | arrive r => rw [List.getElem?_append_left (List.getElem?_eq_some_iff.mp hs).1, hs]
  | turnAway hj => exact hset hj (by simp)
  | accept hj => exact hset hj (by simp)
  | limit hj => exact hset hj (by simp)
  | refuse hj => exact hset hj (by simp)
  | commit hcommits =>
    obtain ⟨asked, hj, -⟩ := hcommits.stage
    exact hset hj (by simp)
  | retry hj => exact hset hj (by simp)
  | purge => exact hs
  | advice => exact hs

/-- A new answer is a 200 only after a commit. -/
theorem answered_of_effect {reply : Reply} (h : Effect A s e s')
    (hs : s'.requests[i]? = some (.answered reply)) (hstatus : reply.status = 200) :
    s.requests[i]? = some (.answered reply) ∨ CommitStep A ⟨s, e, s'⟩ i reply := by
  have hset {j : ℕ} {stage : Stage F E} (hj : (s.requests.set j stage)[i]? = some (.answered reply))
      (hne : stage ≠ .answered reply) : s.requests[i]? = some (.answered reply) := by
    rw [List.getElem?_set] at hj
    split_ifs at hj with heq hlt
    · exact absurd (Option.some.inj hj) hne
    · exact hj
  have hreply {reply' : Reply} (hne : reply'.status ≠ 200) :
      (.answered reply' : Stage F E) ≠ .answered reply := by
    rintro heq
    cases heq
    exact hne hstatus
  cases h with
  | arrive r =>
    rw [List.getElem?_append] at hs
    split_ifs at hs
    · exact .inl hs
    · simp [List.getElem?_singleton] at hs
  | turnAway _ _ hne => exact .inl (hset hs (hreply hne))
  | accept => exact .inl (hset hs (by simp))
  | limit => exact .inl (hset hs (by simp))
  | refuse _ hne => exact .inl (hset hs (hreply hne))
  | @commit j now monotonic p limiter hcommits hnone =>
    by_cases hj : j = i
    · subst hj
      have hstep : CommitStep A ⟨s, .consume j now monotonic, A.served s limiter j now p⟩ j
        (A.answer s now p).2 := ⟨now, monotonic, limiter, p, rfl, hcommits, hnone, rfl, rfl⟩
      have heq := hstep.answers.symm.trans hs
      simp only [Option.some.injEq, Stage.answered.injEq] at heq
      exact .inr (heq ▸ hstep)
    · simp only [served, List.getElem?_set_ne hj] at hs
      exact .inl hs
  | retry _ hne => exact .inl (hset hs (hreply hne))
  | purge => exact .inl hs
  | advice => exact .inl hs

end Steps

section Runs

theorem answered_run {reply : Reply} (h : Run A.Step s₀ tr s)
    (hs : s₀.requests[i]? = some (.answered reply)) : s.requests[i]? = some (.answered reply) :=
  h.invariant (I := fun s => s.requests[i]? = some (.answered reply)) hs
    fun _ _ _ hs hstep => answered_step (effect hstep) hs

/-- The answer of a commit is the last one. -/
theorem CommitStep.answered {reply : Reply} {st : Trace.Step (State F E) (Event F)}
    (hst : CommitStep A st i reply) (h : Run A.Step s₀ tr s) (hmem : st ∈ tr) :
    s.requests[i]? = some (.answered reply) := by
  obtain ⟨tr₁, tr₂, -, -, -, hrun⟩ := h.of_mem hmem
  exact answered_run hrun hst.answers

/-- A request that was answered with a 200 has committed its nonce. -/
theorem commit_of_answered {reply : Reply} (h : Run A.Step s₀ tr s) (h₀ : s₀.requests = [])
    (hs : s.requests[i]? = some (.answered reply)) (hstatus : reply.status = 200) :
    ∃ st ∈ tr, CommitStep A st i reply := by
  revert hs
  apply h.history (P := fun tr s => s.requests[i]? = some (.answered reply) →
    ∃ st ∈ tr, CommitStep A st i reply)
  · simp [h₀]
  · intro tr s e s' _ ih hstep hs
    rcases answered_of_effect (effect hstep) hs hstatus with hs | hst
    · obtain ⟨st, hmem, hst⟩ := ih hs
      exact ⟨st, List.mem_append_left _ hmem, hst⟩
    · exact ⟨_, List.mem_append_right _ (List.mem_singleton_self _), hst⟩

/-- A request commits its nonce once. -/
theorem not_commit_again {reply reply' : Reply} {st st' : Trace.Step (State F E) (Event F)}
    {k l : ℕ} (h : Run A.Step s₀ tr s) (hk : tr[k]? = some st) (hl : tr[l]? = some st')
    (hst : CommitStep A st i reply) (hst' : CommitStep A st' i reply') : ¬ k < l := by
  intro hkl
  rw [cut hl] at h
  obtain ⟨hpre, -, -⟩ := h.split
  have hmem : st ∈ tr.take l := List.mem_of_getElem? (by rw [List.getElem?_take_of_lt hkl, hk])
  obtain ⟨now, monotonic, limiter, p, -, hcommits, -⟩ := hst'
  obtain ⟨asked, hstage, -⟩ := hcommits.stage
  have hanswered := hst.answered hpre hmem
  rw [hstage] at hanswered
  cases hanswered

/-- The step adds the row of the payment of the request `i` to the store, and nothing else. -/
def Burns (A : App F E) (st : Trace.Step (State F E) (Event F)) (i : ℕ) : Prop :=
  ∃ p asked, st.pre.requests[i]? = some (.consuming p asked) ∧
    st.pre.store.rows.get? (p.valid.key A.interpreter A.config) = none ∧
    st.post.store = { st.pre.store with
      rows := st.pre.store.rows.set (p.valid.key A.interpreter A.config) p.valid.validBefore }

/-- The requests that were answered with a 200 have burned one nonce each, theirs, and the other
answered requests have burned none. -/
def BurnedWhenServed (A : App F E) (tr : List (Trace.Step (State F E) (Event F)))
    (s : State F E) : Prop :=
  ∀ i reply, s.requests[i]? = some (.answered reply) →
    (reply.status ≠ 200 → ∀ st ∈ tr, st.ev.Of st.pre i → st.post.store = st.pre.store) ∧
    (reply.status = 200 → ∃ (k : ℕ) (st : Trace.Step (State F E) (Event F)), tr[k]? = some st ∧
      st.ev.Of st.pre i ∧ Burns A st i ∧
      ∀ (l : ℕ) (st' : Trace.Step (State F E) (Event F)), tr[l]? = some st' →
        st'.ev.Of st'.pre i → l ≠ k → st'.post.store = st'.pre.store)

/-- If the step commits a nonce, then the answer can be rendered from the memory before it. -/
def Renderable (A : App F E) (st : Trace.Step (State F E) (Event F)) : Prop :=
  ∀ i now monotonic p, st.ev = .consume i now monotonic → Commits A st.pre i p →
    p.call.Renders A.numerics st.pre.memory

theorem CommitStep.burns {reply : Reply} {st : Trace.Step (State F E) (Event F)}
    (h : CommitStep A st i reply) : Burns A st i ∧ st.ev.Of st.pre i := by
  obtain ⟨now, monotonic, limiter, p, hev, hcommits, hnone, hpost, -⟩ := h
  obtain ⟨asked, hstage, -⟩ := hcommits.stage
  refine ⟨⟨p, asked, hstage, hnone, by rw [hpost, served]⟩, ?_⟩
  rw [hev]
  exact rfl

omit [Json.FloatText F] in
theorem Burns.store_ne {st : Trace.Step (State F E) (Event F)} (h : Burns A st i) :
    st.post.store ≠ st.pre.store := by
  obtain ⟨p, -, -, hnone, hstore⟩ := h
  intro heq
  rw [← heq, hstore, Dict.get?_set, if_pos rfl] at hnone
  cases hnone

/-- The answer of a commit is a 200 when it can be rendered. -/
theorem CommitStep.status {reply : Reply} {st : Trace.Step (State F E) (Event F)}
    (hst : CommitStep A st i reply) (h : Run A.Step s₀ tr s) (h₀ : s₀.requests = [])
    (hmem : st ∈ tr) (hp : Commits A st.pre i p) :
    reply.status = 200 ↔ p.call.Renders A.numerics st.pre.memory := by
  obtain ⟨now, monotonic, limiter, q, -, hcommits, -, -, rfl⟩ := hst
  obtain rfl := hcommits.unique hp
  obtain ⟨tr₁, tr₂, -, hrun, -, -⟩ := h.of_mem hmem
  exact status_answer (checked_of_run hrun h₀ q (pending_of_commits hcommits))

/-- A request whose nonce can be committed commits it. -/
theorem commitStep_of_commits {st : Trace.Step (State F E) (Event F)} {now monotonic : Double F}
    (hstep : A.Step st.pre st.ev st.post) (hev : st.ev = .consume i now monotonic)
    (h : Commits A st.pre i p) : CommitStep A st i (A.answer st.pre now p).2 := by
  obtain ⟨asked, hstage, -⟩ := h.stage
  obtain ⟨store, hstore⟩ := h.store
  have hserved : A.Step st.pre (.consume i now monotonic) _ := step_of_commits hstage h
  rw [hev] at hstep
  exact ⟨now, monotonic, _, p, hev, h, (commitNonce_eq_ok hstore).1,
    Option.some.inj (hstep.symm.trans hserved), rfl⟩

/-- Nonces are burned as they should exactly when every answer after a commit can be rendered. -/
theorem burnedWhenServed_iff (h : Run A.Step s₀ tr s) (h₀ : s₀.requests = []) :
    BurnedWhenServed A tr s ↔ ∀ st ∈ tr, Renderable A st := by
  constructor
  · intro hburned st hmem i now monotonic p hev hcommits
    obtain ⟨-, -, -, -, hstep, -⟩ := h.of_mem hmem
    have hst := commitStep_of_commits hstep hev hcommits
    by_contra hrender
    have hne := mt (hst.status h h₀ hmem hcommits).mp hrender
    have hsame := (hburned i _ (hst.answered h hmem)).1 hne st hmem hst.burns.2
    exact hst.burns.1.store_ne hsame
  · intro hrender i reply hs
    have hok {st : Trace.Step (State F E) (Event F)} {reply' : Reply} (hmem : st ∈ tr)
        (hst : CommitStep A st i reply') : reply'.status = 200 := by
      have ⟨now, monotonic, _, p, hev, hcommits, _⟩ := hst
      exact (hst.status h h₀ hmem hcommits).mpr (hrender st hmem i now monotonic p hev hcommits)
    have hsame {st : Trace.Step (State F E) (Event F)} (hmem : st ∈ tr)
        (hof : st.ev.Of st.pre i) :
        st.post.store = st.pre.store ∨ ∃ reply', CommitStep A st i reply' := by
      obtain ⟨-, -, -, -, hstep, -⟩ := h.of_mem hmem
      exact store_of_step (effect hstep) hof
    constructor
    · intro hne st hmem hof
      rcases hsame hmem hof with hstore | ⟨reply', hst⟩
      · exact hstore
      · have heq := (hst.answered h hmem).symm.trans hs
        cases heq
        exact absurd (hok hmem hst) hne
    · intro hstatus
      obtain ⟨st, hmem, hst⟩ := commit_of_answered h h₀ hs hstatus
      obtain ⟨k, hk⟩ := List.mem_iff_getElem?.mp hmem
      refine ⟨k, st, hk, hst.burns.2, hst.burns.1, fun l st' hl hof hne => ?_⟩
      rcases hsame (List.mem_of_getElem? hl) hof with hstore | ⟨reply', hst'⟩
      · exact hstore
      · have hlt := not_commit_again h hk hl hst hst'
        have hgt := not_commit_again h hl hk hst' hst
        omega

end Runs

end App

namespace Demo

open Memory.MemoryService.Demo App

/-- An `/add` with the trace id `t`, whose payload holds the number. -/
def addJson (x : Double Flt) : Json Flt :=
  .obj [(lit "trace_id", .str (lit "t")), (lit "vec", .arr [.float (.finite .one)]),
    (lit "payload", .obj [(lit "x", .float x)])]

def addCall (x : Double Flt) : Call Flt Flt :=
  .add (lit "t") [.one] (lit "working") [(lit "x", .float x)]

theorem requestCall_add {s : State Flt Flt} (hdim : s.memory.dim = 1) (x : Double Flt)
    (nonce : Str) : app.requestCall s (request .add (addJson x) nonce) = .ok (addCall x) := by
  have hbody : ∃ b, app.addBody (addJson x) = .ok b ∧ b.traceId = lit "t" ∧
      b.vec = [.finite .one] ∧ b.kind = lit "working" ∧ b.payload = [(lit "x", .float x)] :=
    ⟨_, rfl, rfl, rfl, rfl, rfl⟩
  obtain ⟨b, hb, htraceId, hvec, hkind, hpayload⟩ := hbody
  have hworking : lit "working" ∈ workingKinds := List.mem_cons_self
  simp only [requestCall, request, App.addCall, hb, hvec, hkind, htraceId, hpayload,
    List.length_singleton, hdim, ne_eq, not_true_eq_false, if_false, hworking]
  rfl

def otherNonce : Str := hex (List.replicate 32 8)

/-- The memory with that entry. -/
def holding (x : Double Flt) : State Flt Flt :=
  { begin with memory := (app.answerAdd begin now [] (lit "t") [.one] (lit "working")
      [(lit "x", .float x)]).1 }

/-- The state after the entry was added. -/
def added (x : Double Flt) (v : Valid Flt) : State Flt Flt :=
  app.serviced begin 1000 ⟨lit "/pool", v, addCall x⟩ (.finite .zero) now

theorem memory_added (x : Double Flt) (v : Valid Flt) :
    (added x v).memory = (holding x).memory := by
  simp only [added, holding, serviced, served, answer, addCall, answerAdd, admitted]
  split <;> rfl

/-- The steps that add an entry and then query the memory. -/
def addedSteps (x : Double Flt) (v v' : Valid Flt) :
    List (Trace.Step (State Flt Flt) (Event Flt)) :=
  serviceSteps app begin 1000 (request .add (addJson x) bareNonce) ⟨lit "/pool", v, addCall x⟩
      (.finite .zero) now ++
    serviceSteps app (added x v) 1000 (request .query queryJson otherNonce) (paidQuery v')
      (.finite .one) now

theorem run_added (x : Double Flt) : ∃ v v', (added x v).store = oneRow ∧ IsPaid otherNonce v' ∧
    Run app.Step begin (addedSteps x v v')
      (app.serviced (added x v) 1000 (paidQuery v') (.finite .one) now) := by
  obtain ⟨v, hv, hrun⟩ := run_paid bareNonce begin (.finite .zero) (isAscii_hex token)
    (by decide +kernel) (by decide) (requestCall_add rfl x _) rfl (by decide +kernel)
    (by decide) (by decide)
  have hstore : (added x v).store = oneRow := store_serviced hv _
  have hlimiter : (added x v).limiter =
      (begin.limiter.consume app.numerics (interpreter.unicode.lower buyer) 1
        (.finite .zero)).1 := limiter_serviced hv _
  obtain ⟨v', hv', hrun'⟩ := run_paid otherNonce (added x v) (.finite .one) (isAscii_hex _)
    (by decide +kernel) (le_refl _) (requestCall_query (by rw [memory_added]; rfl) _) rfl
    (by rw [hstore]; decide) (by rw [hstore]; decide) (by rw [hlimiter]; decide)
  exact ⟨v, v', hstore, hv', hrun.append hrun'⟩

/-- The answer of the query, which finds the entry. -/
theorem status_query {x : Double Flt} {s : State Flt Flt} (hs : s.memory = (holding x).memory)
    (v : Valid Flt) : (app.answer s now (paidQuery v)).2.status =
      (app.answerQuery (holding x) [.one] 1).2.status := by
  have h : app.answer s now (paidQuery v) = app.answerQuery s [.one] 1 := rfl
  rw [h]
  simp only [answerQuery, hs]

/-- A stored `NaN` fails the query that finds it, and its buyer has lost the nonce. -/
theorem unserved_burned : ∃ tr s, Run app.Step begin tr s ∧ ¬ BurnedWhenServed app tr s := by
  obtain ⟨v, v', hstore, hv', hrun⟩ := run_added .nan
  let s₂ := admitted (added .nan v) 1000 (paidQuery v') (.finite .one)
  let s₃ := app.serviced (added .nan v) 1000 (paidQuery v') (.finite .one) now
  have hreply : s₃.requests[1]? = some (.answered (app.answer s₂ now (paidQuery v')).2) := rfl
  have hstatus : (app.answer s₂ now (paidQuery v')).2.status = 500 := by
    have hmemory : s₂.memory = (holding .nan).memory := memory_added .nan v
    rw [status_query hmemory]
    decide
  refine ⟨_, s₃, hrun, fun hburned => ?_⟩
  have hsame : s₃.store = s₂.store :=
    (hburned 1 _ hreply).1 (by rw [hstatus]; decide) ⟨s₂, .consume 1 now (.finite .one), s₃⟩
      (List.mem_of_getElem? (i := 5) rfl) rfl
  have hrows : s₃.store.rows =
    (added .nan v).store.rows.set (v'.key interpreter config) v'.validBefore := rfl
  have hrows' : s₂.store.rows = (added .nan v).store.rows := rfl
  rw [← hsame, hrows, hstore, hv'.key, hv'.validBefore] at hrows'
  exact absurd (congrArg (·.items.length) hrows') (by decide)

/-- A query that ranks a stored entry is served, and burns its nonce as the `/add` before it did. -/
theorem served_burned : ∃ tr s, Run app.Step begin tr s ∧
    (∃ st ∈ tr, (∃ p, Serves st p) ∧
      ((st.pre.memory.query app.numerics [.one] 1).2.map fun results => results.map (·.1)) =
        some [lit "t"]) ∧
    BurnedWhenServed app tr s := by
  obtain ⟨v, v', -, -, hrun⟩ := run_added (.finite .one)
  have hstatus {s : State Flt Flt} (hs : s.memory = (holding (.finite .one)).memory) :
      (app.answer s now (paidQuery v')).2.status = 200 := by
    rw [status_query hs]
    decide
  refine ⟨_, _, hrun, ⟨_, List.mem_of_getElem? (i := 5) rfl,
    ⟨_, serves_service (hstatus (memory_added _ v))⟩, ?_⟩, (burnedWhenServed_iff hrun rfl).mpr ?_⟩
  · change ((added (.finite .one) v).memory.query app.numerics [.one] 1).2.map _ = _
    rw [memory_added]
    decide
  intro st hst i now' monotonic p hev hcommits
  obtain ⟨asked, hstage, -⟩ := hcommits.stage
  have hmem := hst
  simp only [addedSteps, serviceSteps, List.cons_append, List.nil_append, List.mem_cons,
    List.not_mem_nil, or_false] at hst
  rcases hst with rfl | rfl | rfl | rfl | rfl | rfl
  · cases hev
  · cases hev
  · cases hev
    have hpaid : (admitted begin 1000 ⟨lit "/pool", v, addCall (.finite .one)⟩
      (.finite .zero)).requests[0]? = some (.consuming ⟨lit "/pool", v, addCall (.finite .one)⟩
        (.finite .zero)) := rfl
    cases hpaid.symm.trans hstage
    exact lit_isScalar "t"
  · cases hev
  · cases hev
  · cases hev
    have hpaid :
        (admitted (added (.finite .one) v) 1000 (paidQuery v') (.finite .one)).requests[1]? =
      some (.consuming (paidQuery v') (.finite .one)) := rfl
    cases hpaid.symm.trans hstage
    obtain ⟨-, -, -, -, hstep, -⟩ := hrun.of_mem hmem
    exact ((commitStep_of_commits hstep rfl hcommits).status hrun rfl hmem hcommits).mp
      (hstatus (memory_added _ v))

end Demo

end DarkPool
end Arcane
