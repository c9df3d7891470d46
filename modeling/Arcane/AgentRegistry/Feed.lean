import Arcane.AgentRegistry.Directory
import Arcane.Lib.Log

/-!
# The events of the contract

What a reader of the logs alone knows of the agents (`replay`), and how it compares with the storage
(`State.directory`).

* `logs_eq`: each accepted call emits one event.
* `feed_replays`: the events give the directory back, and each action or deactivation in them is its
  operator's.
-/

namespace Arcane
namespace AgentRegistry

open Text Evm Abi Trace

variable {s s' : State} {e : Event} {tr : List (Trace.Step State Event)}

/-- What the events tell of an agent. -/
structure Row where
  identityId : ℕ
  operator : Address
  constitutionHash : Bytes32
  active : Bool
  deriving DecidableEq

/-- What a reader who knows the events up to now makes of one more. -/
def readLog (rows : ℕ → Option Row) : Log → ℕ → Option Row
  | .agentRegistered agentId identityId operator constitutionHash =>
    Function.update rows agentId (some ⟨identityId, operator, constitutionHash, true⟩)
  | .agentAction _ _ _ _ => rows
  | .agentDeactivated agentId =>
    Function.update rows agentId ((rows agentId).map fun row => { row with active := false })

/-- What the events tell of the agents. -/
def replay (logs : List Log) : ℕ → Option Row := logs.foldl readLog fun _ => none

def Agent.row (agent : Agent) : Row :=
  ⟨agent.identityId, agent.operator, agent.constitutionHash, agent.active⟩

/-- What the storage says of the agents. -/
def State.directory (s : State) (a : ℕ) : Option Row :=
  if 1 ≤ a ∧ a ≤ s.agentCount then some (s.agents a).row else none

/-- The id that an event announces. -/
def Log.registered : Log → Option ℕ
  | .agentRegistered agentId _ _ _ => some agentId
  | _ => none

/-- The event of an accepted call. -/
def emitted (st : Trace.Step State Event) : Log :=
  match st.ev.call with
  | .register identityId constitutionHash _ _ =>
    .agentRegistered (st.pre.agentCount + 1) identityId st.ev.msg.sender constitutionHash
  | .recordAction agentId kind payload => .agentAction agentId kind payload st.ev.msg.timestamp
  | .deactivate agentId => .agentDeactivated agentId

theorem replay_concat (logs : List Log) (log : Log) :
    replay (logs ++ [log]) = readLog (replay logs) log := by
  rw [replay, List.foldl_append]
  rfl

/-- The event of a registration. -/
theorem emitted_register {agent : Agent} (h : e.agent = some agent)
    (hop : agent.operator = e.msg.sender) : emitted ⟨s, e, s'⟩ =
      .agentRegistered (s.agentCount + 1) agent.identityId agent.operator
        agent.constitutionHash := by
  unfold Event.agent at h
  split at h
  · next hcall =>
    cases h
    simp only [emitted, hcall]
  · cases h

theorem Step.logs (h : Step s e s') : s'.logs = s.logs ++ [emitted ⟨s, e, s'⟩] := by
  cases h.effect with
  | register agent hagent hop _ _ =>
    rw [emitted_register hagent hop]
    rfl
  | record agentId kind payload hcall _ => simp only [emitted, hcall]
  | deactivate agentId hcall _ =>
    simp only [emitted, hcall]
    rfl

/-- The events are those of the accepted calls, in their order. -/
theorem logs_eq (h : Run Step .initial tr s) : s.logs = tr.map emitted := by
  induction h with
  | nil => rfl
  | snoc e _ hst ih => rw [hst.logs, ih, List.map_append, List.map_singleton]

theorem directory_enroll (s : State) (agent : Agent) :
    (s.enroll agent).directory =
      Function.update s.directory (s.agentCount + 1) (some agent.row) := by
  funext a
  by_cases ha : a = s.agentCount + 1
  · subst ha
    rw [Function.update_self, State.directory, if_pos ⟨by omega, le_refl _⟩]
    exact congrArg (fun agent => some (Agent.row agent)) (Function.update_self _ _ _)
  · have hiff : 1 ≤ a ∧ a ≤ s.agentCount + 1 ↔ 1 ≤ a ∧ a ≤ s.agentCount := by omega
    have hold : (s.enroll agent).agents a = s.agents a := Function.update_of_ne ha _ _
    rw [Function.update_of_ne ha, State.directory, State.directory, hold]
    exact if_congr hiff rfl rfl

theorem directory_retire (s : State) (b : ℕ) : (s.retire b).directory =
    Function.update s.directory b
      ((s.directory b).map fun row => { row with active := false }) := by
  funext a
  by_cases ha : a = b
  · subst ha
    have hval : (s.retire a).agents a = { s.agents a with active := false } :=
      Function.update_self _ _ _
    have hcount : (s.retire a).agentCount = s.agentCount := rfl
    rw [Function.update_self, State.directory, State.directory, hval, hcount]
    by_cases hin : 1 ≤ a ∧ a ≤ s.agentCount
    · rw [if_pos hin, if_pos hin]
      rfl
    · rw [if_neg hin, if_neg hin]
      rfl
  · have hold : (s.retire b).agents a = s.agents a := Function.update_of_ne ha _ _
    rw [Function.update_of_ne ha, State.directory, State.directory, hold]
    rfl

theorem Step.directory (h : Step s e s') :
    s'.directory = readLog s.directory (emitted ⟨s, e, s'⟩) := by
  cases h.effect with
  | register agent hagent hop _ _ =>
    have hactive : agent.active = true := by
      unfold Event.agent at hagent
      split at hagent
      · cases hagent
        rfl
      · cases hagent
    rw [emitted_register hagent hop, directory_enroll, readLog, ← hactive]
    rfl
  | record agentId kind payload hcall _ =>
    simp only [emitted, hcall, readLog]
    rfl
  | deactivate agentId hcall _ =>
    simp only [emitted, hcall, readLog]
    exact directory_retire s agentId

theorem replay_logs (h : Run Step .initial tr s) : replay s.logs = s.directory := by
  induction h with
  | nil =>
    funext a
    exact (if_neg fun ha => by have := ha.1.trans ha.2; simp [State.initial] at this).symm
  | snoc e _ hst ih => rw [hst.logs, replay_concat, ih, ← hst.directory]

/-- The ids are handed out one after the other. -/
theorem registered_logs (h : Run Step .initial tr s) :
    s.logs.filterMap Log.registered = List.range' 1 s.agentCount := by
  induction h with
  | nil => rfl
  | snoc e _ hst ih =>
    rw [hst.logs, List.filterMap_append, ih]
    cases hst.effect with
    | register agent hagent hop _ _ =>
      rw [emitted_register hagent hop]
      simp [Log.registered, State.enroll, List.range'_concat, Nat.add_comm]
    | record agentId kind payload hcall _ => simp [emitted, hcall, Log.registered]
    | deactivate agentId hcall _ => simp [emitted, hcall, Log.registered, State.retire]

/-- The agent that a call acts for. -/
def Call.actsFor : Call → Option ℕ
  | .register .. => none
  | .recordAction agentId _ _ | .deactivate agentId => some agentId

/-- Only the operator of an agent acts for it. -/
theorem Step.operator_of_actsFor (h : Step s e s') {agentId : ℕ}
    (hcall : e.call.actsFor = some agentId) : (s.agents agentId).operator = e.msg.sender := by
  cases h.effect with
  | register agent hagent _ _ _ =>
    unfold Event.agent at hagent
    split at hagent
    · next hcall' =>
      rw [hcall'] at hcall
      cases hcall
    · cases hagent
  | record b _ _ hcall' hop | deactivate b hcall' hop =>
    rw [hcall'] at hcall
    cases hcall
    exact hop

/-- A call in the run that acts for an agent was sent by its operator, who never changes, after the
registration. -/
theorem sender_of_actsFor (h : Run Step .initial tr s) {st : Trace.Step State Event}
    (hst : st ∈ tr) {agentId : ℕ} (hcall : st.ev.call.actsFor = some agentId) :
    st.ev.msg.sender = (s.agents agentId).operator ∧ st.pre.Holds agentId := by
  obtain ⟨tr₁, tr₂, -, hpre, hstep, hpost⟩ := h.of_mem hst
  have hsender := hstep.operator_of_actsFor hcall
  have hholds := (wellFormed hpre).holds hsender
  have hterms := (hstep.keeps.trans (keeps hpost)).terms agentId hholds
  have hop : (s.agents agentId).terms.operator = (st.pre.agents agentId).terms.operator :=
    congrArg Agent.operator hterms
  exact ⟨hsender.symm.trans hop.symm, hholds⟩

/-- The step recorded the action, in the name of the agent's operator. -/
structure Records (st : Trace.Step State Event) (s : State) (agentId : ℕ) (kind : UInt8)
    (payload : Bytes) (timestamp : ℕ) : Prop where
  call : st.ev.call = .recordAction agentId kind payload
  sender : st.ev.msg.sender = (s.agents agentId).operator
  time : st.ev.msg.timestamp = timestamp
  registered : st.pre.Holds agentId

/-- An action in the events is one of the account that registered its agent, after the
registration. -/
theorem action_records (h : Run Step .initial tr s) {n agentId timestamp : ℕ} {kind : UInt8}
    {payload : Bytes} (hn : s.logs[n]? = some (.agentAction agentId kind payload timestamp)) :
    ∃ st, tr[n]? = some st ∧ Records st s agentId kind payload timestamp := by
  rw [logs_eq h, List.getElem?_map, Option.map_eq_some_iff] at hn
  obtain ⟨st, hst, hlog⟩ := hn
  refine ⟨st, hst, ?_⟩
  have hcall : st.ev.call = .recordAction agentId kind payload ∧
      st.ev.msg.timestamp = timestamp := by
    unfold emitted at hlog
    split at hlog
    · cases hlog
    · next hc =>
      cases hlog
      exact ⟨hc, rfl⟩
    · cases hlog
  have hacts : st.ev.call.actsFor = some agentId := by rw [hcall.1]; rfl
  obtain ⟨hsender, hholds⟩ := sender_of_actsFor h (List.mem_of_getElem? hst) hacts
  exact ⟨hcall.1, hsender, hcall.2, hholds⟩

/-- The step deactivated the agent, in the name of its operator. -/
structure Deactivates (st : Trace.Step State Event) (s : State) (agentId : ℕ) : Prop where
  call : st.ev.call = .deactivate agentId
  sender : st.ev.msg.sender = (s.agents agentId).operator
  registered : st.pre.Holds agentId

theorem deactivation_records (h : Run Step .initial tr s) {n agentId : ℕ}
    (hn : s.logs[n]? = some (.agentDeactivated agentId)) :
    ∃ st, tr[n]? = some st ∧ Deactivates st s agentId := by
  rw [logs_eq h, List.getElem?_map, Option.map_eq_some_iff] at hn
  obtain ⟨st, hst, hlog⟩ := hn
  refine ⟨st, hst, ?_⟩
  have hcall : st.ev.call = .deactivate agentId := by
    unfold emitted at hlog
    split at hlog
    · cases hlog
    · cases hlog
    · next hc =>
      cases hlog
      exact hc
  have hacts : st.ev.call.actsFor = some agentId := by rw [hcall]; rfl
  obtain ⟨hsender, hholds⟩ := sender_of_actsFor h (List.mem_of_getElem? hst) hacts
  exact ⟨hcall, hsender, hholds⟩

/-- The events after a run `tr` to `s`. -/
structure Feed (tr : List (Trace.Step State Event)) (s : State) : Prop where
  directory : replay s.logs = s.directory
  ids : s.logs.filterMap Log.registered = List.range' 1 s.agentCount
  /-- The event at place `n` is that of the `n`-th accepted call. -/
  calls : s.logs = tr.map emitted
  action : ∀ (n : ℕ) agentId kind payload timestamp,
    s.logs[n]? = some (Log.agentAction agentId kind payload timestamp) →
      ∃ st, tr[n]? = some st ∧ Records st s agentId kind payload timestamp
  deactivation : ∀ (n : ℕ) agentId, s.logs[n]? = some (Log.agentDeactivated agentId) →
    ∃ st, tr[n]? = some st ∧ Deactivates st s agentId

/-- Whoever reads the events alone knows every agent with its identity, operator, constitution and
whether it is active, and that each action and each deactivation was sent by the operator of its
agent. -/
theorem feed_replays (h : Run Step .initial tr s) : Feed tr s where
  directory := replay_logs h
  ids := registered_logs h
  calls := logs_eq h
  action _ _ _ _ _ := action_records h
  deactivation _ _ := deactivation_records h

namespace Demo

theorem run_calls : Run Step .initial
    [⟨ran 0, ⟨.of 0xA1 3, answers, .register 7 9 0xBB [104]⟩, ran 1⟩,
      ⟨ran 1, ⟨.of 0xA1 4, answers, .recordAction 1 0 [1, 2]⟩, ran 2⟩,
      ⟨ran 2, ⟨.of 0xA1 5, answers, .deactivate 1⟩, ran 3⟩] (ran 3) :=
  ((Run.nil.snoc _ ⟨trivial, rfl⟩).snoc _ ⟨trivial, rfl⟩).snoc _ ⟨trivial, rfl⟩

/-- The agent is known to be inactive from the events alone. -/
theorem calls_replayed :
    replay (ran 3).logs 1 = some ⟨7, 0xA1, 9, false⟩ ∧
      (ran 3).logs.filterMap Log.registered = [1] := by
  have hfeed := feed_replays run_calls
  exact ⟨by rw [hfeed.directory]; decide +kernel, by rw [hfeed.ids]; decide +kernel⟩

end Demo

end AgentRegistry
end Arcane
