import Arcane.Colosseum.Frame
import Arcane.Colosseum.Solvency

/-!
# Live duels and registrations

A live duel should be backed by the registrations that `createDuel` saw, with no agent in two live
duels (`Backed`). `createDuel` asks only that the agents are registered, so an agent can enter a
second duel while its first one is live, and the first resolution closes it out under the second
duel. `backed_iff`: a run keeps every duel backed exactly when no accepted `createDuel` names an
agent of a live duel (`CreatesApart`).
-/

namespace Arcane
namespace Colosseum

open Evm

/-- The agent is registered as it was in `info`: same developer, same stake. -/
def AgentInfo.Still (now info : AgentInfo) : Prop :=
  now.registered = true ∧ now.developer = info.developer ∧ now.stake = info.stake

/-- Every live duel has the registrations of its agents that its `createDuel` saw, and no agent
fights in two live duels. -/
structure Backed (tr : List (Trace.Step State Event)) (s : State) : Prop where
  registered : ∀ id, (s.duels id).status = .live →
    ∃ st ∈ tr, ∃ bettingSecs tradingSecs,
      st.ev.call = .createDuel (s.duels id).agentA (s.duels id).agentB bettingSecs tradingSecs ∧
      st.ev.ret = id ∧
      ∀ a, (s.duels id).HasAgent a → (s.agents a).Still (st.pre.agents a)
  apart : ∀ id id' a, (s.duels id).status = .live → (s.duels id').status = .live →
    (s.duels id).HasAgent a → (s.duels id').HasAgent a → id = id'

/-- A `createDuel` does not name an agent of a live duel. -/
def CreatesApart (st : Trace.Step State Event) : Prop :=
  ∀ agentA agentB bettingSecs tradingSecs,
    st.ev.call = .createDuel agentA agentB bettingSecs tradingSecs →
      ∀ id, (st.pre.duels id).status = .live →
        ¬ (st.pre.duels id).HasAgent agentA ∧ ¬ (st.pre.duels id).HasAgent agentB

section Step

variable {C : Config} {s s' : State} {e : Event}

/-- A call keeps the agents of a duel. -/
theorem DuelEffect.hasAgent {id : ℕ} {d : Duel} (hwf : WellFormed C s) (h : DuelEffect s e id d)
    (hex : (s.duels id).status ≠ .none) (a : Address) :
    d.HasAgent a ↔ (s.duels id).HasAgent a := by
  obtain ⟨hA, hB, -, -⟩ := h.schedule hwf hex
  rw [Duel.HasAgent, Duel.HasAgent, hA, hB]

/-- What the accepted `createDuel` wrote. -/
theorem Effect.created {id : ℕ} {agentA agentB : Address} {bettingSecs tradingSecs : ℕ}
    (he : Effect C s e s') (hc : e.call = .createDuel agentA agentB bettingSecs tradingSecs)
    (hret : e.ret = id) :
    id = s.duelCount + 1 ∧ (s'.duels id).status = .live ∧ (s'.duels id).agentA = agentA ∧
      (s'.duels id).agentB = agentB ∧ (s.agents agentA).registered = true ∧
      (s.agents agentB).registered = true ∧ s'.agents = s.agents ∧
      ∀ x, x ≠ id → s'.duels x = s.duels x := by
  cases he with
  | create _ _ _ _ hc' _ hA hB hret' =>
    rw [hc] at hc'
    cases hc'
    obtain rfl := hret.symm.trans hret'
    simp +contextual [hA, hB]
  | _ => simp_all [Call.setter]

/-- A registration that backs a live duel stays, while no other live duel has the agent. -/
theorem Effect.still {id : ℕ} {a : Address} {info : AgentInfo}
    (he : Effect C s e s') (hl : (s'.duels id).status = .live)
    (hapart : ∀ id', (s.duels id').status = .live → (s.duels id').HasAgent a → id' = id)
    (hs : (s.agents a).Still info) : (s'.agents a).Still info := by
  have ha := he.agent a
  generalize s'.agents a = info' at ha ⊢
  cases ha with
  | same => exact hs
  | registered _ hreg => exact absurd hs.1 (by simp [hreg])
  | closed x hc hx hxa =>
    -- the duel that closes the agent out is resolved by the call
    obtain rfl := hapart x hx hxa
    have := (he.resolves hc).1
    simp [this] at hl

/-- The agents of a new duel are in no duel that was live. -/
theorem Effect.not_shared {id id' : ℕ} {a agentA agentB : Address} {bs ts : ℕ}
    (he : Effect C s e s') (hc : e.call = .createDuel agentA agentB bs ts) (hret : e.ret = id')
    (hfresh : CreatesApart ⟨s, e, s'⟩) (hlive : (s.duels id).status = .live)
    (ha : (s'.duels id').HasAgent a) : ¬ (s.duels id).HasAgent a := by
  obtain ⟨-, -, hA, hB, -⟩ := he.created hc hret
  obtain ⟨hnA, hnB⟩ := hfresh agentA agentB bs ts hc id hlive
  rw [Duel.HasAgent, hA, hB] at ha
  rcases ha with rfl | rfl
  · exact hnA
  · exact hnB

namespace Backed

variable {tr : List (Trace.Step State Event)}

/-- A `createDuel` on agents that are in no live duel keeps the duels backed, and so does every
other call. -/
theorem step (hwf : WellFormed C s) (h : Backed tr s) (he : Effect C s e s')
    (hfresh : CreatesApart ⟨s, e, s'⟩) : Backed (tr ++ [⟨s, e, s'⟩]) s' where
  registered id hl := by
    rcases (he.duel hwf id).live hl with hlive | ⟨agentA, agentB, bs, ts, hc, hret⟩
    · obtain ⟨st, hm, bs, ts, hc, hret, hstill⟩ := h.registered id hlive
      obtain ⟨hA, hB, -, -⟩ := (he.duel hwf id).schedule hwf (by simp [hlive])
      refine ⟨st, List.mem_append_left _ hm, bs, ts, by rw [hA, hB]; exact hc, hret, fun a ha => ?_⟩
      rw [(he.duel hwf id).hasAgent hwf (by simp [hlive])] at ha
      exact he.still hl (fun id' hl' ha' => h.apart id' id a hl' hlive ha' ha) (hstill a ha)
    · obtain ⟨-, -, hA, hB, hregA, hregB, hagents, -⟩ := he.created hc hret
      refine ⟨⟨s, e, s'⟩, by simp, bs, ts, by rw [hA, hB]; exact hc, hret, fun a ha => ?_⟩
      rw [Duel.HasAgent, hA, hB] at ha
      rw [hagents]
      rcases ha with rfl | rfl
      · exact ⟨hregA, rfl, rfl⟩
      · exact ⟨hregB, rfl, rfl⟩
  apart id id' a hl hl' ha ha' := by
    rcases (he.duel hwf id).live hl with hlive | ⟨agentA, agentB, bs, ts, hc, hret⟩ <;>
      rcases (he.duel hwf id').live hl' with hlive' | ⟨agentA', agentB', bs', ts', hc', hret'⟩
    · rw [(he.duel hwf id).hasAgent hwf (by simp [hlive])] at ha
      rw [(he.duel hwf id').hasAgent hwf (by simp [hlive'])] at ha'
      exact h.apart id id' a hlive hlive' ha ha'
    · rw [(he.duel hwf id).hasAgent hwf (by simp [hlive])] at ha
      exact absurd ha (he.not_shared hc' hret' hfresh hlive ha')
    · rw [(he.duel hwf id').hasAgent hwf (by simp [hlive'])] at ha'
      exact absurd ha' (he.not_shared hc hret hfresh hlive' ha)
    · exact hret.symm.trans hret'

end Backed

end Step

section Runs

variable {C : Config} {s₀ s : State} {tr : List (Trace.Step State Event)}

theorem Run.backed (h₀ : Deployed C s₀) (h : Run C s₀ tr s) (hf : ∀ st ∈ tr, CreatesApart st) :
    Backed tr s := by
  refine h.history (P := fun tr s => (∀ st ∈ tr, CreatesApart st) → Backed tr s) (fun _ => ?_)
    (fun tr s e s' hr ih hst hf => ?_) hf
  · rw [h₀.eq_initial]
    exact ⟨fun _ hl => (by cases hl), fun _ _ _ hl => (by cases hl)⟩
  · have hwf := Run.wellFormed h₀ hr
    exact (ih fun st hm => hf st (List.mem_append_left _ hm)).step hwf (hst.effect hwf)
      (hf _ (by simp))

/-- Every state of the run keeps its live duels backed exactly when no `createDuel` of the run
names an agent that is in a live duel. -/
theorem backed_iff (h₀ : Deployed C s₀) (h : Run C s₀ tr s) :
    (∀ tr₁ tr₂ s₁, tr = tr₁ ++ tr₂ → Run C s₀ tr₁ s₁ → Backed tr₁ s₁) ↔
      ∀ st ∈ tr, CreatesApart st := by
  constructor
  · intro hb st hm agentA agentB bs ts hc id hlive
    obtain ⟨tr₁, tr₂, rfl, hr, hst, -⟩ := h.of_mem hm
    have hwf := Run.wellFormed h₀ hr
    have he := hst.effect hwf
    have hpost := hb (tr₁ ++ [st]) tr₂ st.post (by simp) (hr.snoc st.ev hst)
    obtain ⟨hid, hl, hA, hB, -, -, -, hkeep⟩ := he.created hc rfl
    have hne : id ≠ st.ev.ret := hid ▸ hwf.next_ne (by simp [hlive])
    -- the duel that was live before is still live, next to the new one
    have hold := hkeep id hne
    rw [← hold] at hlive ⊢
    exact ⟨fun ha => hne (hpost.apart id _ agentA hlive hl ha (.inl hA.symm)),
      fun ha => hne (hpost.apart id _ agentB hlive hl ha (.inr hB.symm))⟩
  · rintro hf tr₁ tr₂ s₁ rfl h₁
    exact Run.backed h₀ h₁ fun st hm => hf st (List.mem_append_left _ hm)

end Runs

namespace Demo

/-- The one `createDuel` of `Demo.duel` finds no live duel, so its states are all backed. -/
theorem duel_backed : ∃ tr s, Run config start tr s ∧ (s.duels 1).status = .live ∧
    ∀ tr₁ tr₂ s₁, tr = tr₁ ++ tr₂ → Run config start tr₁ s₁ → Backed tr₁ s₁ := by
  have h : (play config start duel).map (fun r => ((r.2.duels 1).status, r.1.all fun st =>
      match st.ev.call with
      | .createDuel _ _ _ _ => decide (st.pre.duelCount = 0)
      | _ => true)) = some (.live, true) := by decide +kernel
  obtain ⟨r, hr, hv⟩ := Option.map_eq_some_iff.mp h
  simp only [Prod.mk.injEq, List.all_eq_true] at hv
  obtain ⟨hlive, hall⟩ := hv
  have hrun := Run.of_play hr
  refine ⟨r.1, r.2, hrun, hlive, (backed_iff deployed hrun).mpr ?_⟩
  intro st hm agentA agentB bs ts hc id hl
  have hzero := hall st hm
  rw [hc] at hzero
  obtain ⟨_, _, -, hpre, -⟩ := hrun.of_mem hm
  have hcount := ((Run.wellFormed deployed hpre).counted id).mp (by simp [hl])
  simp only [decide_eq_true_eq] at hzero
  omega

/-- Agent `0xA1` enters two duels; the first is resolved, and another developer registers it. -/
def shared : List (Msg × Call) :=
  funding ++ [(.of 0xDA 1, .registerAgent 0xA1),
    (.of 0xDB 1, .registerAgent 0xA2),
    (.of 0xBEEF 2, .createDuel 0xA1 0xA2 10 10),
    (.of 0xBEEF 2, .createDuel 0xA1 0xA2 10 100),
    (.of 0xE1 30, .resolve 1),
    (.of 0xDB 31, .registerAgent 0xA1)]

/-- The second duel is live, but its agent belongs to a developer that `createDuel` never saw. -/
theorem shared_not_backed : ∃ tr s, Run config start tr s ∧ (s.duels 2).status = .live ∧
    (s.duels 2).agentA = 0xA1 ∧ (s.agents 0xA1).developer = 0xDB ∧
    (∀ st ∈ tr, st.ev.ret = 2 → (st.pre.agents 0xA1).developer = 0xDA) ∧ ¬ Backed tr s := by
  have h : (play config start shared).map (fun r => (r.1.all fun st => decide
      (st.ev.ret = 2 → (st.pre.agents 0xA1).developer = 0xDA), (r.2.duels 2).status,
      (r.2.duels 2).agentA, (r.2.agents 0xA1).developer)) =
      some (true, .live, 0xA1, 0xDB) := by decide +kernel
  obtain ⟨r, hr, hv⟩ := Option.map_eq_some_iff.mp h
  simp only [Prod.mk.injEq, List.all_eq_true, decide_eq_true_eq] at hv
  obtain ⟨hall, hlive, hA, hdev⟩ := hv
  refine ⟨r.1, r.2, Run.of_play hr, hlive, hA, hdev, hall, fun hb => ?_⟩
  obtain ⟨st, hm, _, _, -, hret, hstill⟩ := hb.registered 2 hlive
  have := (hstill 0xA1 (.inl hA.symm)).2.1
  rw [hdev, hall st hm hret] at this
  exact absurd this (by decide)

end Demo

end Colosseum
end Arcane
