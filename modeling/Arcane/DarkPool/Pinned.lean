import Arcane.DarkPool.Burn
import Arcane.Memory.PinnedSet

/-!
# The pinned constitution and the requests

`/add` takes no trace id that is there and no kind `pinned`. `publish_advice` passes its caller's
trace id and kind to `memory.add` as they are, so that an advice can pin an entry, and can overwrite
a pinned one.

* `pinned_unchanged_iff`: the pinned set and its root are those of the start in every state, exactly
  when each advice that the memory takes leaves the pinned entries alone.
* `Demo.overwritten`: an advice with the trace id of a rule.
-/

namespace Arcane
namespace DarkPool

open Text Memory Registry Trace

variable {F E : Type} [Json.FloatText F]

namespace App

variable {A : App F E} {s s₀ s' : State F E} {e : Event F}
  {tr : List (Trace.Step (State F E) (Event F))}

/-- An advice. -/
def Event.IsAdvice : Event F → Prop
  | .advice _ _ _ => True
  | _ => False

/-- The `memory.add` of an advice. -/
def adds (A : App F E) (memory : MemoryService F E) (agentId : ℤ) (now : Double F)
    (body : AdviceBody F) (vec : List E) (traceId : Str) : Option (MemoryService F E) :=
  memory.add A.numerics now traceId vec body.kind false (some (advicePayload agentId body.trace))

/-- What a step does to the memory. -/
inductive MemoryEffect (A : App F E) (s : State F E) : Event F → MemoryService F E → Prop
  | same {e : Event F} : ¬ e.IsAdvice → MemoryEffect A s e s.memory
  | query {e : Event F} (vec : List E) (k : ℤ) : ¬ e.IsAdvice →
    MemoryEffect A s e (s.memory.query A.numerics vec k).1
  | add {e : Event F} {now : Double F} {traceId : Str} {vec : List E} {kind : Str}
      {payload : Payload F} {memory : MemoryService F E} : ¬ e.IsAdvice →
    s.memory.entries.get? traceId = none → kind ∈ workingKinds → Json.Keyed (.obj payload) →
    s.memory.add A.numerics now traceId vec kind false (some payload) = some memory →
    MemoryEffect A s e memory
  | reject {agentId : ℤ} {json : Json F} {now : Double F} :
    (∀ body vec traceId, A.packages.adviceBody json = some body →
      body.vector A.numerics A.packages s.memory.dim = some vec →
      body.id A.packages = some traceId → A.adds s.memory agentId now body vec traceId = none) →
    MemoryEffect A s (.advice agentId json now) s.memory
  | advice {agentId : ℤ} {json : Json F} {now : Double F} {body : AdviceBody F} {vec : List E}
      {traceId : Str} {memory : MemoryService F E} :
    A.packages.adviceBody json = some body →
    body.vector A.numerics A.packages s.memory.dim = some vec → body.id A.packages = some traceId →
    A.adds s.memory agentId now body vec traceId = some memory →
    MemoryEffect A s (.advice agentId json now) memory

omit [Json.FloatText F] in
theorem memoryEffect_advised (agentId : ℤ) (json : Json F) (now : Double F) :
    MemoryEffect A s (.advice agentId json now) (A.advised s agentId json now) := by
  unfold advised
  cases h : (A.packages.adviceBody json).bind
      (publishAdvice A.numerics A.packages s.memory now agentId) with
  | none =>
    apply MemoryEffect.reject
    intro body vec traceId hbody hvec hid
    simpa only [hbody, Option.bind_some, publishAdvice, Option.bind_eq_bind, hvec, hid, adds]
      using h
  | some memory =>
    obtain ⟨body, hbody, hpublish⟩ := Option.bind_eq_some_iff.mp h
    obtain ⟨vec, hvec, hpublish⟩ := Option.bind_eq_some_iff.mp hpublish
    obtain ⟨traceId, hid, hadd⟩ := Option.bind_eq_some_iff.mp hpublish
    exact .advice hbody hvec hid hadd

theorem memoryEffect_answer {i : ℕ} {now : Double F} {p : Paid F E} (he : ¬ e.IsAdvice)
    (h : Commits A s i p) (hchecked : Checked s p) :
    MemoryEffect A s e (A.answer s now p).1 := by
  have hfree := h.free
  have hcall := hchecked.call
  unfold answer
  cases hp : p.call with
  | query vec k => exact .query vec k he
  | add traceId vec kind payload =>
    rw [hp] at hfree hcall
    have hnone : s.memory.entries.get? traceId = none := by
      simpa [Call.taken] using hfree
    simp only [answerAdd]
    split
    · exact .same he
    · next memory hadd => exact .add he hnone hcall.2.1 hcall.2.2 hadd

theorem memoryEffect (h : Effect A s e s') (hchecked : ∀ p, Pending s p → Checked s p) :
    MemoryEffect A s e s'.memory := by
  cases h with
  | commit hcommits =>
    exact memoryEffect_answer id hcommits (hchecked _ (pending_of_commits hcommits))
  | advice agentId json now => exact memoryEffect_advised agentId json now
  | _ => exact .same id

omit [Json.FloatText F] in
theorem keyed_advicePayload (agentId : ℤ) (trace : Str) :
    Json.Keyed (.obj (advicePayload (F := F) agentId trace)) := by
  apply Json.keyed_obj ["agent_id", "trace"] rfl (by decide)
  simp only [advicePayload, List.forall_mem_cons]
  exact ⟨trivial, trivial, by simp⟩

/-- What a step leaves of the memory can be reached by operations on it. -/
theorem reached_of_effect {memory : MemoryService F E} (h : MemoryEffect A s e memory)
    (hs : s.memory.Reached A.numerics) : memory.Reached A.numerics := by
  cases h with
  | same => exact hs
  | query vec k => exact hs.step (.query vec k) trivial
  | @add _ now traceId vec kind payload _ _ _ _ hkeyed hadd =>
    have hstep := hs.step (.add now traceId vec kind false (some payload)) hkeyed
    rwa [MemoryService.step, hadd] at hstep
  | reject => exact hs
  | @advice agentId json now body vec traceId _ _ _ _ hadd =>
    have hstep := hs.step (.add now traceId vec body.kind false
      (some (advicePayload agentId body.trace))) (keyed_advicePayload agentId body.trace)
    rw [adds] at hadd
    rwa [MemoryService.step, hadd] at hstep

theorem reached_run (h : Run A.Step s₀ tr s) (h₀ : s₀.requests = [])
    (hmemory : s₀.memory.Reached A.numerics) : s.memory.Reached A.numerics := by
  apply h.history (P := fun _ s => s.memory.Reached A.numerics) hmemory
  intro tr s e s' hrun hs hstep
  exact reached_of_effect (memoryEffect (effect hstep) (checked_of_run hrun h₀)) hs

/-- If the step is an advice that the memory takes, then it does not change the pinned entries: one
of another kind has the trace id of none of them, and one of the kind `pinned` writes one of them
again. -/
def KeepsPinned (A : App F E) (st : Trace.Step (State F E) (Event F)) : Prop :=
  ∀ agentId json now body vec traceId, st.ev = .advice agentId json now →
    A.packages.adviceBody json = some body →
    body.vector A.numerics A.packages st.pre.memory.dim = some vec →
    body.id A.packages = some traceId → vec.length = st.pre.memory.dim → body.kind ∈ validKinds →
    if body.kind = lit "pinned" then
      (traceId, (MemoryService.code A.numerics st.pre.memory.dim st.pre.memory.seed
        (st.pre.memory.centre A.numerics) vec).bitsPacked, advicePayload agentId body.trace) ∈
        st.pre.memory.pinnedSet
    else ∀ x ∈ st.pre.memory.pinnedSet, x.1 ≠ traceId

omit [Json.FloatText F] in
theorem keepsPinned_of_not_advice (h : ¬ e.IsAdvice) : KeepsPinned A ⟨s, e, s'⟩ := by
  rintro agentId json now body vec traceId rfl
  exact (h trivial).elim

omit [Json.FloatText F] in
/-- An `add` of an id that is not there does not pin, unless its kind says so. -/
theorem pinnedSet_add {now : Double F} {traceId : Str} {vec : List E} {kind : Str}
    {payload : Payload F} {memory : MemoryService F E}
    (hnone : s.memory.entries.get? traceId = none) (hkind : kind ∈ workingKinds)
    (h : s.memory.add A.numerics now traceId vec kind false (some payload) = some memory) :
    memory.pinnedSet = s.memory.pinnedSet := by
  have hne : kind ≠ lit "pinned" := by
    rintro rfl
    exact absurd hkind (by decide)
  ext x
  rw [MemoryService.mem_pinnedSet_add h]
  split
  · next hx =>
    refine iff_of_false (fun hp => ?_) ?_
    · simp [hne] at hp
    · rintro ⟨e, he, -⟩
      rw [hx, hnone] at he
      cases he
  · rfl

omit [Json.FloatText F] in
/-- An advice that the memory takes changes the pinned entries unless it keeps them. -/
theorem pinnedSet_advice {agentId : ℤ} {now : Double F} {body : AdviceBody F} {vec : List E}
    {traceId : Str} {memory : MemoryService F E}
    (h : A.adds s.memory agentId now body vec traceId = some memory) :
    memory.pinnedSet = s.memory.pinnedSet ↔
      if body.kind = lit "pinned" then
        (traceId, (MemoryService.code A.numerics s.memory.dim s.memory.seed
          (s.memory.centre A.numerics) vec).bitsPacked, advicePayload agentId body.trace) ∈
          s.memory.pinnedSet
      else ∀ x ∈ s.memory.pinnedSet, x.1 ≠ traceId := by
  rw [Set.ext_iff]
  simp only [MemoryService.mem_pinnedSet_add h, Option.getD_some, Bool.false_or, decide_eq_true_eq]
  by_cases hkind : body.kind = lit "pinned"
  · simp only [hkind, true_and, if_true]
    constructor
    · intro hset
      exact (hset _).mp (by simp)
    · intro hmem x
      split
      · next hx =>
        constructor
        · rintro hwritten
          rwa [← hx, ← hwritten] at hmem
        · intro hold
          exact congrArg Prod.snd (MemoryService.pinnedSet_unique hold hmem hx)
      · rfl
  · simp only [hkind, false_and, if_false]
    constructor
    · intro hset x hx hid
      have hnot := (hset x).mpr hx
      rwa [if_pos hid] at hnot
    · intro hother x
      split
      · next hx => exact iff_of_false id fun hold => hother x hold hx
      · rfl

omit [Json.FloatText F] in
/-- A step leaves the pinned entries as they are exactly when it keeps them. -/
theorem pinnedSet_effect (h : MemoryEffect A s e s'.memory) :
    s'.memory.pinnedSet = s.memory.pinnedSet ↔ KeepsPinned A ⟨s, e, s'⟩ := by
  generalize hm : s'.memory = memory at h
  cases h with
  | same he => exact iff_of_true rfl (keepsPinned_of_not_advice he)
  | query vec k he =>
    refine iff_of_true ?_ (keepsPinned_of_not_advice he)
    simp only [MemoryService.pinnedSet, MemoryService.entries_query]
  | add he hnone hkind _ hadd =>
    exact iff_of_true (pinnedSet_add hnone hkind hadd) (keepsPinned_of_not_advice he)
  | reject hnone =>
    refine iff_of_true rfl ?_
    rintro agentId json now body vec traceId hev hbody hvec hid hlen hkind
    cases hev
    exact (MemoryService.add_eq_none (hnone body vec traceId hbody hvec hid) ⟨hkind, hlen⟩).elim
  | @advice agentId json now body vec traceId _ hbody hvec hid hadd =>
    rw [pinnedSet_advice hadd]
    constructor
    · intro hkeeps agentId' json' now' body' vec' traceId' hev hbody' hvec' hid' _ _
      cases hev
      obtain rfl := Option.some.inj (hbody.symm.trans hbody')
      obtain rfl := Option.some.inj (hvec.symm.trans hvec')
      obtain rfl := Option.some.inj (hid.symm.trans hid')
      exact hkeeps
    · intro hkeeps
      obtain ⟨hkind, hlen, -⟩ := MemoryService.add_eq_some hadd
      exact hkeeps agentId json now body vec traceId rfl hbody hvec hid hlen hkind

theorem pinnedSet_step (h : Run A.Step s₀ tr s) (h₀ : s₀.requests = []) (hstep : A.Step s e s') :
    s'.memory.pinnedSet = s.memory.pinnedSet ↔ KeepsPinned A ⟨s, e, s'⟩ :=
  pinnedSet_effect (memoryEffect (effect hstep) (checked_of_run h h₀))

/-- Steps that keep the pinned entries lead to a state with those of the start. -/
theorem pinnedSet_run (h : Run A.Step s₀ tr s) (h₀ : s₀.requests = [])
    (hkeeps : ∀ st ∈ tr, KeepsPinned A st) : s.memory.pinnedSet = s₀.memory.pinnedSet := by
  revert hkeeps
  apply h.history (P := fun tr s => (∀ st ∈ tr, KeepsPinned A st) →
    s.memory.pinnedSet = s₀.memory.pinnedSet)
  · exact fun _ => rfl
  · intro tr s e s' hrun ih hstep hkeeps
    rw [(pinnedSet_step hrun h₀ hstep).mpr (hkeeps _ (by simp))]
    exact ih fun st hst => hkeeps st (List.mem_append_left _ hst)

/-- No state of the run has other pinned entries, or another root of them, than its start, exactly
when each advice that the memory takes keeps the pinned entries. -/
theorem pinned_unchanged_iff (h : Run A.Step s₀ tr s) (h₀ : s₀.requests = [])
    (hmemory : s₀.memory.Reached A.numerics) :
    (∀ st ∈ tr, st.post.memory.pinnedSet = s₀.memory.pinnedSet ∧
      st.post.memory.pinnedMerkleRoot = s₀.memory.pinnedMerkleRoot) ↔
    ∀ st ∈ tr, KeepsPinned A st := by
  constructor
  · apply h.history (P := fun tr s => (∀ st ∈ tr, st.post.memory.pinnedSet =
        s₀.memory.pinnedSet ∧ st.post.memory.pinnedMerkleRoot = s₀.memory.pinnedMerkleRoot) →
      ∀ st ∈ tr, KeepsPinned A st)
    · simp
    · intro tr s e s' hrun ih hstep hsame st hst
      have hkeeps := ih fun st hst => hsame st (List.mem_append_left _ hst)
      rcases List.mem_append.mp hst with hst | hst
      · exact hkeeps st hst
      · rw [List.mem_singleton] at hst
        subst hst
        rw [← pinnedSet_step hrun h₀ hstep, pinnedSet_run hrun h₀ hkeeps]
        exact (hsame _ (List.mem_append_right _ List.mem_cons_self)).1
  · intro hkeeps st hst
    obtain ⟨tr₁, tr₂, rfl, hpre, hstep, -⟩ := h.of_mem hst
    have hrun := hpre.snoc st.ev hstep
    have hset := pinnedSet_run hrun h₀ fun x hx => hkeeps x (by
      rcases List.mem_append.mp hx with hx | hx
      · exact List.mem_append_left _ hx
      · rw [List.mem_singleton.mp hx]
        exact List.mem_append_right _ List.mem_cons_self)
    exact ⟨hset, MemoryService.pinnedMerkleRoot_of_pinnedSet
      (reached_run hrun h₀ hmemory).wellFormed hmemory.wellFormed hset⟩

end App

namespace Demo

open Memory.MemoryService.Demo App

/-- The operator's rule `r` is pinned. -/
def ruled : State Flt Flt := { begin with memory := pinnedAtOnce }

theorem reached_ruled : ruled.memory.Reached app.numerics :=
  ⟨1, lambdas, 0, _, run_pinnedAtOnce⟩

/-- The body of an advice with a trace id, and of the kind `working`. -/
def adviceJson (traceId : String) : Json Flt :=
  .obj [(lit "trace", .str (lit "buy")), (lit "vec", .arr [.float (.finite .one)]),
    (lit "trace_id", .str (lit traceId)), (lit "kind", .str (lit "working"))]

/-- The steps of one advice. -/
def adviceSteps (traceId : String) : List (Trace.Step (State Flt Flt) (Event Flt)) :=
  [⟨ruled, .advice 1 (adviceJson traceId) now,
    { ruled with memory := app.advised ruled 1 (adviceJson traceId) now }⟩]

theorem run_advice (traceId : String) : Run app.Step ruled (adviceSteps traceId)
    { ruled with memory := app.advised ruled 1 (adviceJson traceId) now } := by
  have hstep : app.Step ruled (.advice 1 (adviceJson traceId) now)
      { ruled with memory := app.advised ruled 1 (adviceJson traceId) now } := rfl
  exact Run.nil.snoc _ hstep

/-- An advice with the trace id of the rule takes its place. -/
theorem overwritten : ∃ tr s, Run app.Step ruled tr s ∧
    ¬ ∀ st ∈ tr, st.post.memory.pinnedSet = ruled.memory.pinnedSet ∧
      st.post.memory.pinnedMerkleRoot = ruled.memory.pinnedMerkleRoot := by
  refine ⟨_, _, run_advice "r", fun hsame => ?_⟩
  have hids := MemoryService.pinnedIds_of_pinnedSet (hsame _ (List.mem_singleton_self _)).1
  exact absurd hids (by decide +kernel)

/-- An advice with a trace id of its own leaves the rule. -/
theorem rule_kept : ∃ tr s, Run app.Step ruled tr s ∧ s.memory.entries.items.length = 2 ∧
    ∀ st ∈ tr, st.post.memory.pinnedSet = ruled.memory.pinnedSet ∧
      st.post.memory.pinnedMerkleRoot = ruled.memory.pinnedMerkleRoot := by
  refine ⟨_, _, run_advice "u", by decide,
    (pinned_unchanged_iff (run_advice "u") rfl reached_ruled).mpr ?_⟩
  intro st hst agentId json time body vec traceId hev hbody hvec hid hlen hkind
  rw [adviceSteps, List.mem_singleton] at hst
  subst hst
  cases hev
  have hbody' : app.packages.adviceBody (adviceJson "u") =
    some ⟨lit "buy", some [.finite .one], some (lit "u"), lit "working"⟩ := rfl
  cases hbody'.symm.trans hbody
  have hid' : AdviceBody.id app.packages
    ⟨lit "buy", some [.finite .one], some (lit "u"), lit "working"⟩ = some (lit "u") := rfl
  cases hid'.symm.trans hid
  have hids : ∀ id ∈ ruled.memory.pinnedIds, id ≠ lit "u" := by decide +kernel
  rw [if_neg (by decide)]
  intro x hx
  exact hids x.1 (MemoryService.mem_pinnedIds.mpr ⟨x, hx, rfl⟩)

end Demo

end DarkPool
end Arcane
