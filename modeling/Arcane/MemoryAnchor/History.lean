import Arcane.Lib.Log
import Arcane.Lib.Mapping
import Arcane.MemoryAnchor.Defs

/-!
# The history of the anchors

* `step_cases`: the two ways in which a call writes.
* `wellFormed`: the counters, the latest records and the histories are in step.
* `append_only`: what a run adds to the histories, by whom and with which numbers.
-/

namespace Arcane
namespace MemoryAnchor

open Evm Abi Trace

/-- The state after an anchor under an identity. -/
def State.bind (s : State) (m : Msg) (identityId : ℕ) (root : Bytes32) : State :=
  { s with
    latestByIdentity := Function.update s.latestByIdentity identityId
      ⟨root, U64.cast m.timestamp, s.countByIdentity identityId + 1⟩
    countByIdentity :=
      Function.update s.countByIdentity identityId (s.countByIdentity identityId + 1)
    history := push s.history identityId ⟨root, m.sender, m.timestamp⟩ }

/-- The state after a legacy anchor. -/
def State.assert (s : State) (m : Msg) (root : Bytes32) : State :=
  { s with
    latest := Function.update s.latest m.sender ⟨root, U64.cast m.timestamp, s.count m.sender + 1⟩
    count := Function.update s.count m.sender (s.count m.sender + 1)
    history := push s.history 0 ⟨root, m.sender, m.timestamp⟩ }

@[simp]
theorem State.bind_history (s : State) (m : Msg) (identityId : ℕ) (root : Bytes32) :
    (s.bind m identityId root).history =
      push s.history identityId ⟨root, m.sender, m.timestamp⟩ := rfl

@[simp]
theorem State.assert_history (s : State) (m : Msg) (root : Bytes32) :
    (s.assert m root).history = push s.history 0 ⟨root, m.sender, m.timestamp⟩ := rfl

variable {s s' : State} {e : Event} {tr tr' : List (Trace.Step State Event)}

/-- A call anchors under an identity that its sender owns, or under the sender's address. -/
theorem step_cases (h : Step s e s') :
    (∃ identityId, e.call.identity = some identityId ∧
      e.ownerOf identityId = some e.msg.sender ∧ s' = s.bind e.msg identityId e.call.root) ∨
    e.call.identity = none ∧ s' = s.assert e.msg e.call.root := by
  obtain ⟨-, h⟩ := h
  obtain ⟨m, ownerOf, call⟩ := e
  cases call with
  | anchor identityId root =>
    simp only [exec, anchor, bind_ok, revertIf_ok, reply_ok, U64.add_ok, pure_ok, not_not] at h
    obtain ⟨-, -, owner, howner, -, rfl, _, ⟨-, rfl⟩, rfl⟩ := h
    exact .inl ⟨identityId, rfl, howner, rfl⟩
  | anchorRoot root | anchorByAddress root =>
    simp only [exec, anchorByAddress, anchorRoot, bind_ok, revertIf_ok, U64.add_ok, pure_ok] at h
    obtain ⟨-, -, _, ⟨-, rfl⟩, rfl⟩ := h
    exact .inr ⟨rfl, rfl⟩

theorem push_self (history : ℕ → List AnchorRecord) (identityId : ℕ) (record : AnchorRecord) :
    push history identityId record identityId = history identityId ++ [record] :=
  Function.update_self _ _ _

theorem push_of_ne {history : ℕ → List AnchorRecord} {identityId i : ℕ} {record : AnchorRecord}
    (h : i ≠ identityId) : push history identityId record i = history i :=
  Function.update_of_ne h _ _

/-- A history stays as it is or gets one record. -/
theorem history_step (h : Step s e s') (i : ℕ) :
    s'.history i = s.history i ∨ ∃ record, s'.history i = s.history i ++ [record] := by
  obtain ⟨identityId, -, -, rfl⟩ | ⟨-, rfl⟩ := step_cases h
  · by_cases hi : i = identityId
    · subst hi
      exact .inr ⟨_, push_self _ _ _⟩
    · exact .inl (push_of_ne hi)
  · rw [State.assert_history]
    by_cases hi : i = 0
    · subst hi
      exact .inr ⟨_, push_self _ _ _⟩
    · exact .inl (push_of_ne hi)

theorem history_prefix (h : Run Step s tr s') (i : ℕ) : s.history i <+: s'.history i := by
  refine h.log_prefix (·.history i) fun s e s' hst => ?_
  obtain heq | ⟨record, heq⟩ := history_step hst i
  · exact heq ▸ List.prefix_rfl
  · exact heq ▸ List.prefix_append _ _

/-- What a step adds to the history of an identity other than 0 is of its owner. -/
theorem owner_of_history {i : ℕ} {record : AnchorRecord} (h : Step s e s') (hi : i ≠ 0)
    (hhist : s'.history i = s.history i ++ [record]) : e.ownerOf i = some record.ownerAtAnchor := by
  have hgrow (history : List AnchorRecord) : history ≠ history ++ [record] := by simp
  obtain ⟨identityId, -, howner, rfl⟩ | ⟨-, rfl⟩ := step_cases h
  · by_cases hid : i = identityId
    · subst hid
      rw [State.bind_history, push_self, List.append_cancel_left_eq, List.cons.injEq] at hhist
      rw [howner, ← hhist.1]
    · rw [State.bind_history, push_of_ne hid] at hhist
      exact absurd hhist (hgrow _)
  · rw [State.assert_history, push_of_ne hi] at hhist
    exact absurd hhist (hgrow _)

/-- What holds in every state. -/
structure WellFormed (s : State) : Prop where
  historyLength : ∀ i, historyLength s i =
    s.countByIdentity i + if i = 0 then ∑ agent, s.count agent else 0
  latest : ∀ agent, (s.latest agent).sequence = s.count agent
  latestByIdentity : ∀ i, (s.latestByIdentity i).sequence = s.countByIdentity i

theorem wellFormed_initial : WellFormed .initial where
  historyLength i := by simp [historyLength, State.initial]
  latest _ := rfl
  latestByIdentity _ := rfl

theorem WellFormed.bind (hs : WellFormed s) (m : Msg) (identityId : ℕ) (root : Bytes32) :
    WellFormed (s.bind m identityId root) where
  historyLength i := by
    have hlen := hs.historyLength i
    rw [MemoryAnchor.historyLength] at hlen ⊢
    by_cases hi : i = identityId
    · subst hi
      simp only [State.bind, push_self, Function.update_self, List.length_append,
        List.length_singleton, hlen]
      omega
    · simp only [State.bind, push_of_ne hi, Function.update_of_ne hi, hlen]
  latest := hs.latest
  latestByIdentity i := by
    by_cases hi : i = identityId
    · simp only [State.bind, hi, Function.update_self]
    · simp only [State.bind, Function.update_of_ne hi, hs.latestByIdentity]

theorem WellFormed.assert (hs : WellFormed s) (m : Msg) (root : Bytes32) :
    WellFormed (s.assert m root) where
  historyLength i := by
    have hlen := hs.historyLength i
    have hsum := Mapping.sum_update (Finset.mem_univ m.sender) s.count (s.count m.sender + 1)
    rw [MemoryAnchor.historyLength] at hlen ⊢
    by_cases hi : i = 0
    · subst hi
      simp only [State.assert, push_self, List.length_append, List.length_singleton, hlen, if_true]
      omega
    · simp only [State.assert, push_of_ne hi, if_neg hi, hlen]
  latest agent := by
    by_cases ha : agent = m.sender
    · simp only [State.assert, ha, Function.update_self]
    · simp only [State.assert, Function.update_of_ne ha, hs.latest]
  latestByIdentity := hs.latestByIdentity

theorem WellFormed.step (hs : WellFormed s) (h : Step s e s') : WellFormed s' := by
  obtain ⟨identityId, -, -, rfl⟩ | ⟨-, rfl⟩ := step_cases h
  · exact hs.bind _ _ _
  · exact hs.assert _ _

theorem wellFormed (h : Run Step .initial tr s) : WellFormed s :=
  h.invariant wellFormed_initial fun _ _ _ hs hst => hs.step hst

/-! ## The numbers handed out -/

/-- The step is an anchor under the identity `i`. -/
def boundTo (i : ℕ) (st : Trace.Step State Event) : Bool := st.ev.call.identity = some i

/-- The step is a legacy anchor of the agent. -/
def assertedBy (agent : Address) (st : Trace.Step State Event) : Bool :=
  st.ev.call.identity = none ∧ st.ev.msg.sender = agent

theorem countByIdentity_step (h : Step s e s') (i : ℕ) :
    s'.countByIdentity i = s.countByIdentity i + if boundTo i ⟨s, e, s'⟩ then 1 else 0 := by
  obtain ⟨identityId, hid, -, rfl⟩ | ⟨hid, rfl⟩ := step_cases h
  · by_cases hi : i = identityId
    · subst hi
      simp [boundTo, hid, State.bind]
    · simp [boundTo, hid, State.bind, Function.update_of_ne hi, Ne.symm hi]
  · simp [boundTo, hid, State.assert]

theorem count_step (h : Step s e s') (agent : Address) :
    s'.count agent = s.count agent + if assertedBy agent ⟨s, e, s'⟩ then 1 else 0 := by
  obtain ⟨identityId, hid, -, rfl⟩ | ⟨hid, rfl⟩ := step_cases h
  · simp [assertedBy, hid, State.bind]
  · by_cases ha : agent = e.msg.sender
    · subst ha
      simp [assertedBy, hid, State.assert]
    · simp [assertedBy, hid, State.assert, Function.update_of_ne ha, Ne.symm ha]

/-- The states that the steps of a run reach are well formed. -/
theorem wellFormed_post (h : Run Step .initial tr s) : ∀ st ∈ tr, WellFormed st.post :=
  h.forall_mem fun _ _ e _ hr hst => wellFormed (hr.snoc e hst)

theorem sequences_identity (h : Run Step .initial tr s) (i : ℕ) :
    (tr.filter (boundTo i)).map (fun st => (st.post.latestByIdentity i).sequence) =
      List.range' 1 (s.countByIdentity i) := by
  rw [← h.counted (·.countByIdentity i) rfl fun _ _ _ hst => countByIdentity_step hst i]
  refine List.map_congr_left fun st hst => ?_
  exact (wellFormed_post h st (List.mem_of_mem_filter hst)).latestByIdentity i

theorem sequences_agent (h : Run Step .initial tr s) (agent : Address) :
    (tr.filter (assertedBy agent)).map (fun st => (st.post.latest agent).sequence) =
      List.range' 1 (s.count agent) := by
  rw [← h.counted (·.count agent) rfl fun _ _ _ hst => count_step hst agent]
  refine List.map_congr_left fun st hst => ?_
  exact (wellFormed_post h st (List.mem_of_mem_filter hst)).latest agent

/-! ## What a run does -/

/-- The histories after a run `tr` from deployment, and in a state that is later still. -/
structure AppendOnly (tr : List (Trace.Step State Event)) (s s' : State) : Prop where
  prefix_later : ∀ i, s.history i <+: s'.history i
  /-- The record at place `n` of the history of an identity was written by a step of the run, and
  has as its owner the one that the identity had then. -/
  owner : ∀ i ≠ 0, ∀ n record, (s.history i)[n]? = some record → ∃ st ∈ tr,
    (st.pre.history i).length = n ∧ st.post.history i = st.pre.history i ++ [record] ∧
      st.ev.ownerOf i = some record.ownerAtAnchor
  historyLength : ∀ i, historyLength s i =
    s.countByIdentity i + if i = 0 then ∑ agent, s.count agent else 0
  latest : ∀ agent, (s.latest agent).sequence = s.count agent
  latestByIdentity : ∀ i, (s.latestByIdentity i).sequence = s.countByIdentity i
  /-- The numbers that an agent was given, one after the other. -/
  sequences : ∀ agent,
    (tr.filter (assertedBy agent)).map (fun st => (st.post.latest agent).sequence) =
      List.range' 1 (s.count agent)
  sequencesByIdentity : ∀ i,
    (tr.filter (boundTo i)).map (fun st => (st.post.latestByIdentity i).sequence) =
      List.range' 1 (s.countByIdentity i)

theorem append_only (h : Run Step .initial tr s) (h' : Run Step s tr' s') : AppendOnly tr s s' where
  prefix_later := history_prefix h'
  owner i hi n record hrecord := by
    obtain ⟨st, hmem, hst, hlen, hpost⟩ :=
      h.exists_write (·.history i) rfl (fun _ _ _ hst => history_step hst i) hrecord
    exact ⟨st, hmem, hlen, hpost, owner_of_history hst hi hpost⟩
  historyLength := (wellFormed h).historyLength
  latest := (wellFormed h).latest
  latestByIdentity := (wellFormed h).latestByIdentity
  sequences := sequences_agent h
  sequencesByIdentity := sequences_identity h

namespace Demo

/-- The first owner of an identity anchors. -/
def first : Event := ⟨.of 0xa 5, fun _ => some 0xa, .anchor 7 1⟩

/-- Its second owner anchors. -/
def second : Event := ⟨.of 0xb 6, fun _ => some 0xb, .anchor 7 2⟩

/-- The state after the calls. -/
def after (events : List Event) : State := events.foldl (transact exec) .initial

theorem run_owners : Run Step .initial
    [⟨.initial, first, after [first]⟩, ⟨after [first], second, after [first, second]⟩]
    (after [first, second]) :=
  (Run.nil.snoc first ⟨trivial, rfl⟩).snoc second ⟨trivial, rfl⟩

/-- Both records stay, each with its owner. -/
theorem owners_recorded :
    (after [first, second]).history 7 = [⟨1, 0xa, 5⟩, ⟨2, 0xb, 6⟩] ∧
    historyLength (after [first, second]) 7 = (after [first, second]).countByIdentity 7 ∧
    ((after [first, second]).latestByIdentity 7).sequence = 2 := by
  have happend := append_only run_owners .nil
  exact ⟨by decide +kernel, happend.historyLength 7, happend.latestByIdentity 7⟩

end Demo

end MemoryAnchor
end Arcane
