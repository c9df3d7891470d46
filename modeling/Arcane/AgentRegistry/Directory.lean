import Arcane.AgentRegistry.Defs

/-!
# The directory of agents

* `step_cases`: what each of the calls writes.
* `WellFormed`: agents and identities are one to one, and the ids are those up to the count.
* `registered_once`: who registered an agent, what stays of it, and who can deactivate it.
-/

namespace Arcane
namespace AgentRegistry

open Text Evm Abi Trace

variable {s s' : State} {e : Event} {tr tr' : List (Trace.Step State Event)} {a : ℕ}

/-- The agent that a call registers. -/
def Event.agent (e : Event) : Option Agent :=
  match e.call with
  | .register identityId constitutionHash bondVault darkPoolUrl =>
    some ⟨identityId, constitutionHash, bondVault, darkPoolUrl, e.msg.sender, e.msg.timestamp, true⟩
  | _ => none

/-- The sender owns the identity of the agent, and has a bond in its vault. -/
structure Event.Entitled (e : Event) (agent : Agent) : Prop where
  owner : e.answers.ownerOf agent.identityId = some e.msg.sender
  bond : ∃ balance, e.answers.balanceOf agent.bondVault e.msg.sender = some balance ∧ balance ≠ 0

/-- The state after a registration. -/
def State.enroll (s : State) (agent : Agent) : State where
  agents := Function.update s.agents (s.agentCount + 1) agent
  agentByIdentity := Function.update s.agentByIdentity agent.identityId (s.agentCount + 1)
  agentCount := s.agentCount + 1
  logs := s.logs ++
    [.agentRegistered (s.agentCount + 1) agent.identityId agent.operator agent.constitutionHash]

/-- The state after a deactivation. -/
def State.retire (s : State) (agentId : ℕ) : State :=
  { s with
    agents := Function.update s.agents agentId { s.agents agentId with active := false }
    logs := s.logs ++ [.agentDeactivated agentId] }

/-- What an accepted call writes. -/
inductive Effect (s : State) (e : Event) : State → Prop where
  | register (agent : Agent) : e.agent = some agent → agent.operator = e.msg.sender →
      e.Entitled agent → s.agentByIdentity agent.identityId = 0 → Effect s e (s.enroll agent)
  | record (agentId : ℕ) (kind : UInt8) (payload : Bytes) :
      e.call = .recordAction agentId kind payload →
      (s.agents agentId).operator = e.msg.sender →
      Effect s e { s with logs := s.logs ++ [.agentAction agentId kind payload e.msg.timestamp] }
  | deactivate (agentId : ℕ) : e.call = .deactivate agentId →
      (s.agents agentId).operator = e.msg.sender → Effect s e (s.retire agentId)

theorem Step.effect (h : Step s e s') : Effect s e s' := by
  obtain ⟨-, h⟩ := h
  obtain ⟨m, x, call⟩ := e
  cases call with
  | register identityId constitutionHash bondVault darkPoolUrl =>
    simp only [exec, register, map_eq_pure_bind, bind_ok, revertIf_ok, reply_ok, U256.add_ok,
      pure_ok, not_not] at h
    obtain ⟨_, ⟨owner, howner, -, rfl, balance, hbalance, -, hpos, -, hfree, _, ⟨-, rfl⟩, rfl⟩,
      rfl⟩ := h
    rw [Msg.cast_timestamp]
    exact .register ⟨identityId, constitutionHash, bondVault, darkPoolUrl, m.sender, m.timestamp,
      true⟩ rfl rfl ⟨howner, balance, hbalance, hpos⟩ hfree
  | recordAction agentId kind payload =>
    simp only [exec, recordAction, bind_ok, revertIf_ok, pure_ok, not_not] at h
    obtain ⟨-, hoperator, rfl⟩ := h
    exact .record agentId kind payload rfl hoperator
  | deactivate agentId =>
    simp only [exec, deactivate, bind_ok, revertIf_ok, pure_ok, not_not] at h
    obtain ⟨-, hoperator, rfl⟩ := h
    exact .deactivate agentId rfl hoperator

/-- The id of a registered agent. -/
def State.Holds (s : State) (agentId : ℕ) : Prop := 1 ≤ agentId ∧ agentId ≤ s.agentCount

/-- What holds in every state. -/
structure WellFormed (s : State) : Prop where
  vacant : ∀ a, ¬ s.Holds a → s.agents a = .empty
  operator : ∀ a, s.Holds a → (s.agents a).operator ≠ 0
  identity : ∀ a, s.Holds a → s.agentByIdentity (s.agents a).identityId = a
  agent : ∀ i, s.agentByIdentity i ≠ 0 →
    s.Holds (s.agentByIdentity i) ∧ (s.agents (s.agentByIdentity i)).identityId = i

theorem wellFormed_initial : WellFormed .initial where
  vacant _ _ := rfl
  operator a h := absurd (h.1.trans h.2) (by decide)
  identity a h := absurd (h.1.trans h.2) (by decide)
  agent i h := absurd rfl h

/-- Only an agent that is registered has an operator that calls. -/
theorem WellFormed.holds (hs : WellFormed s) {m : Msg} (h : (s.agents a).operator = m.sender) :
    s.Holds a := by
  by_contra hn
  rw [hs.vacant a hn] at h
  exact m.sender_ne h.symm

theorem WellFormed.enroll (hs : WellFormed s) {agent : Agent} (hop : agent.operator ≠ 0)
    (hfree : s.agentByIdentity agent.identityId = 0) : WellFormed (s.enroll agent) := by
  have hold {b : ℕ} (hne : b ≠ s.agentCount + 1) :
      (s.enroll agent).agents b = s.agents b := Function.update_of_ne hne _ _
  have hnew : (s.enroll agent).agents (s.agentCount + 1) = agent := Function.update_self _ _ _
  have hcases {b : ℕ} (hb : (s.enroll agent).Holds b) :
      b = s.agentCount + 1 ∨ b ≠ s.agentCount + 1 ∧ s.Holds b := by
    obtain ⟨h₁, h₂⟩ := hb
    have h₂' : b ≤ s.agentCount + 1 := h₂
    by_cases hne : b = s.agentCount + 1
    · exact .inl hne
    · exact .inr ⟨hne, h₁, by omega⟩
  refine ⟨fun b hb => ?_, fun b hb => ?_, fun b hb => ?_, fun i hi => ?_⟩
  · have hne : b ≠ s.agentCount + 1 := by
      rintro rfl
      exact hb ⟨by omega, le_refl _⟩
    rw [hold hne]
    exact hs.vacant b fun h => hb ⟨h.1, h.2.trans (Nat.le_succ _)⟩
  · obtain rfl | ⟨hne, hb⟩ := hcases hb
    · rwa [hnew]
    · rw [hold hne]
      exact hs.operator b hb
  · obtain rfl | ⟨hne, hb⟩ := hcases hb
    · rw [hnew]
      exact Function.update_self _ _ _
    · -- the identity of an older agent is taken, so it is not the new one
      have hid := hs.identity b hb
      have hother : (s.agents b).identityId ≠ agent.identityId := by
        intro heq
        rw [heq, hfree] at hid
        have := hb.1
        omega
      rw [hold hne]
      exact (Function.update_of_ne hother _ _).trans hid
  · by_cases hid : i = agent.identityId
    · subst hid
      have hval : (s.enroll agent).agentByIdentity agent.identityId = s.agentCount + 1 :=
        Function.update_self _ _ _
      rw [hval, hnew]
      exact ⟨⟨by omega, le_refl _⟩, rfl⟩
    · have hval : (s.enroll agent).agentByIdentity i = s.agentByIdentity i :=
        Function.update_of_ne hid _ _
      rw [hval] at hi ⊢
      obtain ⟨hb, heq⟩ := hs.agent i hi
      have hne : s.agentByIdentity i ≠ s.agentCount + 1 := by
        have := hb.2
        omega
      rw [hold hne]
      exact ⟨⟨hb.1, hb.2.trans (Nat.le_succ _)⟩, heq⟩

/-- A deactivation changes no field but `active`. -/
theorem State.agents_retire (s : State) (b a : ℕ) :
    (s.retire b).agents a = s.agents a ∨
      a = b ∧ (s.retire b).agents a = { s.agents a with active := false } := by
  by_cases h : a = b
  · subst h
    exact .inr ⟨rfl, Function.update_self _ _ _⟩
  · exact .inl (Function.update_of_ne h _ _)

theorem WellFormed.retire (hs : WellFormed s) {b : ℕ} (hb : s.Holds b) :
    WellFormed (s.retire b) := by
  have hoperator (a : ℕ) : ((s.retire b).agents a).operator = (s.agents a).operator := by
    obtain h | ⟨-, h⟩ := s.agents_retire b a <;> rw [h]
  have hidentity (a : ℕ) : ((s.retire b).agents a).identityId = (s.agents a).identityId := by
    obtain h | ⟨-, h⟩ := s.agents_retire b a <;> rw [h]
  refine ⟨fun a ha => ?_, fun a ha => ?_, fun a ha => ?_, fun i hi => ?_⟩
  · obtain h | ⟨rfl, -⟩ := s.agents_retire b a
    · rw [h]
      exact hs.vacant a ha
    · exact absurd hb ha
  · rw [hoperator]
    exact hs.operator a ha
  · rw [hidentity]
    exact hs.identity a ha
  · rw [hidentity]
    exact hs.agent i hi

theorem WellFormed.step (hs : WellFormed s) (h : Step s e s') : WellFormed s' := by
  cases h.effect with
  | register agent _ hop _ hfree =>
    exact hs.enroll (hop ▸ e.msg.sender_ne) hfree
  | record agentId kind payload _ _ => exact ⟨hs.vacant, hs.operator, hs.identity, hs.agent⟩
  | deactivate agentId _ hop => exact hs.retire (hs.holds hop)

theorem wellFormed (h : Run Step .initial tr s) : WellFormed s :=
  h.invariant wellFormed_initial fun _ _ _ hs hst => hs.step hst

/-- Only a registered agent is deactivated. -/
theorem Step.holds_of_deactivate (h : Step s e s') (hs : WellFormed s)
    (hcall : e.call = .deactivate a) : s.Holds a := by
  cases h.effect with
  | register _ hagent _ _ _ => simp [Event.agent, hcall] at hagent
  | record _ _ _ hcall' _ => cases hcall.symm.trans hcall'
  | deactivate b hcall' hop =>
    cases hcall.symm.trans hcall'
    exact hs.holds hop

/-! ## What stays of an agent -/

/-- The fields that no call changes. -/
def Agent.terms (agent : Agent) : Agent := { agent with active := true }

/-- What a later state keeps of an earlier one. -/
structure Keeps (s s' : State) : Prop where
  holds : ∀ a, s.Holds a → s'.Holds a
  terms : ∀ a, s.Holds a → (s'.agents a).terms = (s.agents a).terms
  active : ∀ a, s.Holds a → (s'.agents a).active = true → (s.agents a).active = true
  identity : ∀ i, s.agentByIdentity i ≠ 0 → s'.agentByIdentity i = s.agentByIdentity i
  logs : s.logs <+: s'.logs

theorem Keeps.refl (s : State) : Keeps s s :=
  ⟨fun _ h => h, fun _ _ => rfl, fun _ _ h => h, fun _ _ => rfl, List.prefix_rfl⟩

theorem Keeps.trans {s'' : State} (h : Keeps s s') (h' : Keeps s' s'') : Keeps s s'' where
  holds a ha := h'.holds a (h.holds a ha)
  terms a ha := (h'.terms a (h.holds a ha)).trans (h.terms a ha)
  active a ha hactive := h.active a ha (h'.active a (h.holds a ha) hactive)
  identity i hi := by
    have hid := h.identity i hi
    rw [h'.identity i (hid ▸ hi), hid]
  logs := h.logs.trans h'.logs

theorem Step.keeps (h : Step s e s') : Keeps s s' := by
  cases h.effect with
  | register agent _ _ _ hfree =>
    have hold {a : ℕ} (ha : s.Holds a) : (s.enroll agent).agents a = s.agents a := by
      have hne : a ≠ s.agentCount + 1 := by
        have := ha.2
        omega
      exact Function.update_of_ne hne _ _
    refine ⟨fun a ha => ⟨ha.1, ha.2.trans (Nat.le_succ _)⟩, fun a ha => by rw [hold ha],
      fun a ha h => by rwa [hold ha] at h, fun i hi => ?_, List.prefix_append _ _⟩
    have hne : i ≠ agent.identityId := by
      rintro rfl
      exact hi hfree
    exact Function.update_of_ne hne _ _
  | record agentId kind payload _ _ =>
    exact ⟨fun _ h => h, fun _ _ => rfl, fun _ _ h => h, fun _ _ => rfl, List.prefix_append _ _⟩
  | deactivate agentId _ _ =>
    refine ⟨fun _ h => h, fun a _ => ?_, fun a _ hactive => ?_, fun _ _ => rfl,
      List.prefix_append _ _⟩
    · obtain h | ⟨-, h⟩ := s.agents_retire agentId a
      · rw [h]
      · rw [h]
        rfl
    · obtain h | ⟨-, h⟩ := s.agents_retire agentId a
      · rwa [h] at hactive
      · rw [h] at hactive
        cases hactive

theorem keeps (h : Run Step s tr s') : Keeps s s' := by
  induction h with
  | nil => exact .refl s
  | snoc e _ hst ih => exact ih.trans hst.keeps

/-- The view answers what is stored of a registered agent. -/
theorem getAgent_of_holds (hs : WellFormed s) (ha : s.Holds a) :
    getAgent s a = .ok (s.agents a) := by
  simp only [AgentRegistry.getAgent, bind_ok, revertIf_ok, pure_ok]
  exact ⟨(), hs.operator a ha, trivial⟩

/-! ## Registrations -/

/-- The run deactivates the agent. -/
def Retired (tr : List (Trace.Step State Event)) (a : ℕ) : Prop :=
  ∃ st ∈ tr, st.ev.call = .deactivate a

/-- The step registered the agent. -/
structure Enrolls (st : Trace.Step State Event) (a : ℕ) (agent : Agent) : Prop where
  terms : st.ev.agent = some agent
  sender : agent.operator = st.ev.msg.sender
  entitled : st.ev.Entitled agent
  count : st.pre.agentCount + 1 = a

/-- Every agent was registered by a step of the run, with the terms that it still has, and is active
until its operator deactivates it. -/
theorem enrolled (h : Run Step .initial tr s) : ∀ a, s.Holds a →
    (∃ st ∈ tr, Enrolls st a (s.agents a).terms) ∧
      ((s.agents a).active = true ↔ ¬ Retired tr a) := by
  refine h.history (P := fun tr s => ∀ a, s.Holds a → (∃ st ∈ tr, Enrolls st a (s.agents a).terms) ∧
    ((s.agents a).active = true ↔ ¬ Retired tr a)) ?_ ?_
  · intro a ha
    exact absurd (ha.1.trans ha.2) (by decide)
  intro tr s e s' hrun ih hst a ha
  have hs := wellFormed hrun
  have hmono {agent : Agent} (h : ∃ st ∈ tr, Enrolls st a agent) :
      ∃ st ∈ tr ++ [⟨s, e, s'⟩], Enrolls st a agent := by
    obtain ⟨st, hmem, hst⟩ := h
    exact ⟨st, List.mem_append_left _ hmem, hst⟩
  have hretired : Retired (tr ++ [⟨s, e, s'⟩]) a ↔ Retired tr a ∨ e.call = .deactivate a := by
    simp [Retired, or_and_right, exists_or]
  rw [hretired]
  have hterms (hold : s.Holds a) : (s'.agents a).terms = (s.agents a).terms :=
    hst.keeps.terms a hold
  cases hst.effect with
  | register agent hagent hop hent hfree =>
    have hcall : e.call ≠ .deactivate a := by
      intro hcall
      simp [Event.agent, hcall] at hagent
    by_cases hnew : a = s.agentCount + 1
    · subst hnew
      have hval : (s.enroll agent).agents (s.agentCount + 1) = agent := Function.update_self _ _ _
      have hactive : agent.active = true ∧ agent.terms = agent := by
        unfold Event.agent at hagent
        split at hagent
        · cases hagent
          exact ⟨rfl, rfl⟩
        · cases hagent
      -- nobody could deactivate it before
      have hnot : ¬ Retired tr (s.agentCount + 1) := by
        rintro ⟨st, hmem, hcall⟩
        obtain ⟨tr₁, tr₂, -, hpre, hst', hpost⟩ := hrun.of_mem hmem
        have hb := hst'.holds_of_deactivate (wellFormed hpre) hcall
        have hlater := (hst'.keeps.trans (keeps hpost)).holds _ hb
        have := hlater.2
        omega
      rw [hval, hactive.2]
      refine ⟨⟨⟨s, e, s.enroll agent⟩, by simp, hagent, hop, hent, rfl⟩, iff_of_true hactive.1 ?_⟩
      simp [hnot, hcall]
    · have hb : s.Holds a := by
        obtain ⟨h₁, h₂⟩ := ha
        have h₂' : a ≤ s.agentCount + 1 := h₂
        exact ⟨h₁, by omega⟩
      have hval : (s.enroll agent).agents a = s.agents a := Function.update_of_ne hnew _ _
      rw [hval]
      refine ⟨hmono (ih a hb).1, ?_⟩
      simp [(ih a hb).2, hcall]
  | record agentId kind payload hcall _ =>
    refine ⟨hmono (ih a ha).1, ?_⟩
    simp [(ih a ha).2, hcall]
  | deactivate agentId hcall _ =>
    refine ⟨?_, ?_⟩
    · rw [hterms ha]
      exact hmono (ih a ha).1
    · by_cases hid : a = agentId
      · subst hid
        have hval : (s.retire a).agents a = { s.agents a with active := false } :=
          Function.update_self _ _ _
        rw [hval]
        simp [hcall]
      · have hval : (s.retire agentId).agents a = s.agents a := Function.update_of_ne hid _ _
        rw [hval, (ih a ha).2]
        simp [hcall, Ne.symm hid]

/-- What holds of the agents after a run `tr` from deployment, and in a state that is later
still. -/
structure RegisteredOnce (tr : List (Trace.Step State Event)) (s s' : State) : Prop where
  /-- Agents and identities are one to one. -/
  identity : ∀ a i, s.Holds a ∧ (s.agents a).identityId = i ↔ s.agentByIdentity i = a ∧ a ≠ 0
  /-- The view answers for the registered agents only. -/
  getAgent : ∀ a, (∃ agent, getAgent s a = .ok agent) ↔ s.Holds a
  enrolled : ∀ a, s.Holds a → ∃ st ∈ tr, Enrolls st a (s.agents a).terms
  active : ∀ a, s.Holds a → ((s.agents a).active = true ↔ ¬ Retired tr a)
  later : Keeps s s'

/-- An identity is registered once and for all: by an account that owned it then and had a bond in
the vault that it named, with terms that never change, under an operator who alone can deactivate
it, for good. -/
theorem registered_once (h : Run Step .initial tr s) (h' : Run Step s tr' s') :
    RegisteredOnce tr s s' := by
  have hs := wellFormed h
  refine ⟨fun a i => ⟨?_, ?_⟩, fun a => ⟨?_, ?_⟩, fun a ha => (enrolled h a ha).1,
    fun a ha => (enrolled h a ha).2, keeps h'⟩
  · rintro ⟨ha, rfl⟩
    exact ⟨hs.identity a ha, Nat.one_le_iff_ne_zero.mp ha.1⟩
  · rintro ⟨rfl, hi⟩
    exact hs.agent i hi
  · rintro ⟨agent, hget⟩
    simp only [AgentRegistry.getAgent, bind_ok, revertIf_ok] at hget
    obtain ⟨-, hop, -⟩ := hget
    by_contra hn
    exact hop (by rw [hs.vacant a hn]; rfl)
  · intro ha
    exact ⟨s.agents a, getAgent_of_holds hs ha⟩

namespace Demo

/-- The owner of the identity 7, with a bond of 5 in the vault `0xBB`. -/
def answers : Answers where
  ownerOf i := if i = 7 then some 0xA1 else none
  balanceOf vault a := some (if vault = 0xBB ∧ a = 0xA1 then 5 else 0)

/-- It registers an agent, publishes an action in its name, and deactivates it. -/
def calls : List Event :=
  [⟨.of 0xA1 3, answers, .register 7 9 0xBB [104]⟩,
    ⟨.of 0xA1 4, answers, .recordAction 1 0 [1, 2]⟩,
    ⟨.of 0xA1 5, answers, .deactivate 1⟩]

/-- The run of the first calls. -/
def ran (n : ℕ) : State := (calls.take n).foldl (transact exec) .initial

/-- The identity is taken for good, and its agent no longer active. -/
theorem calls_registered :
    (ran 1).agentByIdentity 7 = 1 ∧ ((ran 1).agents 1).active = true ∧
      (ran 3).agentByIdentity 7 = 1 ∧ ((ran 3).agents 1).active = false := by
  have hfirst : Run Step .initial
      [⟨ran 0, ⟨.of 0xA1 3, answers, .register 7 9 0xBB [104]⟩, ran 1⟩] (ran 1) :=
    Run.nil.snoc _ ⟨trivial, rfl⟩
  have hlater : Run Step (ran 1)
      [⟨ran 1, ⟨.of 0xA1 4, answers, .recordAction 1 0 [1, 2]⟩, ran 2⟩,
        ⟨ran 2, ⟨.of 0xA1 5, answers, .deactivate 1⟩, ran 3⟩] (ran 3) :=
    (Run.nil.snoc _ ⟨trivial, rfl⟩).snoc _ ⟨trivial, rfl⟩
  have hreg := registered_once hfirst hlater
  have hid : (ran 1).agentByIdentity 7 = 1 := by decide +kernel
  refine ⟨hid, by decide +kernel, ?_, by decide +kernel⟩
  rw [hreg.later.identity 7 (by rw [hid]; decide), hid]

end Demo

end AgentRegistry
end Arcane
