import Arcane.Colosseum.Defs

/-!
# What one call of the Colosseum does

`Effect C s e s'` lists what an accepted call `e` can do to the state, one constructor for each
external function, with the guards that passed and the state written. `Step.effect` derives it
from the code. Later modules split on `Effect` and never unfold a function.

* `Settled`: what `reportCall` does with the escrow of the injection it names.
* `Entitled`: what `claim` pays, with the counters it writes.
* The setters and the calls on USDC do not touch a duel, an agent or an injection: they are the
  constructors `params` and `token`.
-/

namespace Arcane
namespace Colosseum

open Evm

/-- The pool of a side. -/
def Duel.pool (d : Duel) (onA : Bool) : ℕ := if onA then d.poolA else d.poolB

/-! ## Inversion of the helpers -/

section Helpers

variable {C : Config} {s s' : State} {m : Msg} {id : ℕ} {d : Duel} {agent : Address}

theorem existingDuel_ok : s.existingDuel id = .ok d ↔ d = s.duels id ∧ d.status ≠ .none := by
  simp only [State.existingDuel, bind_ok, revertIf_ok, pure_ok]
  constructor
  · rintro ⟨_, hs, rfl⟩; exact ⟨rfl, hs⟩
  · rintro ⟨rfl, hs⟩; exact ⟨(), hs, rfl⟩

theorem liveDuel_ok : s.liveDuel id = .ok d ↔ d = s.duels id ∧ d.status = .live := by
  simp only [State.liveDuel, bind_ok, revertIf_ok, pure_ok, existingDuel_ok, not_not]
  constructor
  · rintro ⟨_, ⟨rfl, -⟩, _, hs, rfl⟩; exact ⟨rfl, hs⟩
  · rintro ⟨rfl, hs⟩; exact ⟨_, ⟨rfl, by simp [hs]⟩, (), hs, rfl⟩

theorem pullStake_ok {usdc usdc' : Token} {developer : Address} {stake : ℕ}
    (hdev : developer ≠ C.self) (h : pullStake C usdc developer stake = .ok usdc') :
    Token.Received usdc usdc' C.self stake := by
  unfold pullStake at h
  split at h
  · exact (Token.safeTransferFrom_ok h).received hdev
  · rename_i hz
    obtain rfl : stake = 0 := by omega
    obtain rfl := pure_ok.mp h
    exact .refl _ _

theorem recordScore_ok {d' : Duel} {rBps : ℤ} (h : recordScore d agent rBps = .ok d') :
    ∃ scoreA scoreB, d' = { d with scoreA, scoreB } := by
  unfold recordScore at h
  split at h <;> simp only [bind_ok, pure_ok] at h <;> obtain ⟨_, -, rfl⟩ := h
  · exact ⟨_, d.scoreB, rfl⟩
  · exact ⟨d.scoreA, _, rfl⟩

theorem recordIngestion_ok {ing surv : Bool} (h : recordIngestion s agent ing surv = .ok s') :
    ∃ ingested survived, s' = { s with
        injectionsIngested := ingested, survivedInjections := survived } ∧
      ∀ a, survived a ≤ s.survivedInjections a + 1 := by
  unfold recordIngestion at h
  split at h
  · simp only [bind_ok, U256.add_ok] at h
    obtain ⟨_, -, h⟩ := h
    split at h
    · simp only [bind_ok, U256.add_ok, pure_ok] at h
      obtain ⟨_, ⟨-, rfl⟩, rfl⟩ := h
      refine ⟨_, _, rfl, fun a => ?_⟩
      by_cases ha : a = agent
      · subst ha; simp
      · simp [Function.update_of_ne ha]
    · obtain rfl := pure_ok.mp h
      exact ⟨_, s.survivedInjections, rfl, fun a => by omega⟩
  · obtain rfl := pure_ok.mp h
    exact ⟨s.injectionsIngested, s.survivedInjections, rfl, fun a => by omega⟩

theorem recordFailure_ok {failed : Bool} (h : recordFailure s agent failed = .ok s') :
    ∃ failures, s' = { s with
      agents := Function.update s.agents agent { s.agents agent with failures } } := by
  unfold recordFailure at h
  split at h
  · simp only [bind_ok, pure_ok] at h
    obtain ⟨failures, -, rfl⟩ := h
    exact ⟨failures, rfl⟩
  · obtain rfl := pure_ok.mp h
    exact ⟨(s.agents agent).failures, by simp⟩

theorem payOperator_ok {usdc usdc' : Token} {treasury : Address} {cut : ℕ}
    (htr : treasury ≠ C.self) (h : payOperator C usdc treasury cut = .ok usdc') :
    Token.Sent usdc usdc' C.self cut := by
  unfold payOperator at h
  split at h
  · exact (Token.safeTransfer_ok h).sent htr.symm
  · rename_i hz
    obtain rfl : cut = 0 := by omega
    obtain rfl := pure_ok.mp h
    exact .refl _ _

theorem addToPool_ok {d' : Duel} {onA : Bool} {amount : ℕ} (h : addToPool d onA amount = .ok d') :
    d.pool onA + amount < 2 ^ 256 ∧ d' = if onA then { d with poolA := d.poolA + amount }
      else { d with poolB := d.poolB + amount } := by
  unfold addToPool at h
  split at h <;> simp only [bind_ok, pure_ok, U256.add_ok] at h <;>
    obtain ⟨_, ⟨hlt, rfl⟩, rfl⟩ := h
  · rename_i ha; simpa [Duel.pool, ha] using hlt
  · rename_i ha; simpa [Duel.pool, ha] using hlt

end Helpers

/-! ## The escrow of a reported injection -/

/-- The state after a scored call on the live duel `id`: new scores, resilience counters and
failures, and nothing else. -/
def State.scored (s : State) (id : ℕ) (agent : Address) (scoreA scoreB : ℤ)
    (ingested survived : Address → ℕ) (failures : ℕ) : State :=
  { s with
    duels := Function.update s.duels id { s.duels id with scoreA, scoreB }
    injectionsIngested := ingested
    survivedInjections := survived
    agents := Function.update s.agents agent { s.agents agent with failures } }

/-- What `settleBounty` does for the report of `agent` in duel `id` on injection `i`. -/
inductive Settled (C : Config) (s : State) (id : ℕ) (agent : Address) (i : ℕ) (survived : Bool) :
    State → Prop
  | idle : i = 0 ∨ s.injectionEscrows i = 0 → Settled C s id agent i survived s
  | bounty (usdc : Token) : i ≠ 0 → s.injectionEscrows i ≠ 0 → s.injectionTarget i = agent →
      survived = true → (s.agents agent).developer ≠ 0 →
      Token.Moved s.usdc usdc C.self (s.agents agent).developer (s.injectionEscrows i) →
      Settled C s id agent i survived { s with
        usdc
        injectionEscrows := Function.update s.injectionEscrows i 0 }
  | pooled : i ≠ 0 → s.injectionEscrows i ≠ 0 → s.injectionTarget i = agent →
      ¬ (survived = true ∧ (s.agents agent).developer ≠ 0) →
      Settled C s id agent i survived { s with
        injectionEscrows := Function.update s.injectionEscrows i 0
        prizePool := Function.update s.prizePool id (s.prizePool id + s.injectionEscrows i) }

theorem settleBounty_ok {C : Config} {s s' : State} {id i : ℕ} {agent : Address} {survived : Bool}
    (h : settleBounty C s id agent i survived = .ok s') : Settled C s id agent i survived s' := by
  simp only [settleBounty] at h
  split at h
  · rename_i hi
    obtain rfl := pure_ok.mp h
    exact .idle hi
  · rename_i hi
    rw [not_or] at hi
    simp only [bind_ok, revertIf_ok, not_not] at h
    obtain ⟨_, htarget, h⟩ := h
    split at h
    · rename_i hs
      simp only [bind_ok, pure_ok] at h
      obtain ⟨usdc, ht, rfl⟩ := h
      exact .bounty usdc hi.1 hi.2 htarget hs.1 hs.2 (Token.safeTransfer_ok ht)
    · rename_i hs
      simp only [bind_ok, pure_ok, U256.add_ok] at h
      obtain ⟨_, ⟨-, rfl⟩, rfl⟩ := h
      exact .pooled hi.1 hi.2 htarget hs

/-! ## The payout of a claim -/

/-- The side that the duel's winner is on. -/
def Duel.winnerIsA (d : Duel) : Bool := decide (d.winner = d.agentA)

def Duel.winningPool (d : Duel) : ℕ := d.pool d.winnerIsA

/-- The claim of `a` on the resolved duel `id` pays `payout` and leaves the counters at
`newClaimed` and `paid`. -/
def State.Entitled (s : State) (id : ℕ) (a : Address) (newClaimed paid payout : ℕ) : Prop :=
  let d := s.duels id
  let mine := s.betOf id d.winnerIsA a
  (d.winningPool = 0 ∧ newClaimed = s.winClaimedStake id ∧ paid = s.paidOut id ∧
      payout = s.betOf id true a + s.betOf id false a) ∨
    (d.winningPool ≠ 0 ∧ 0 < mine ∧ newClaimed = s.winClaimedStake id + mine ∧
      paid = s.paidOut id + payout ∧
      (newClaimed = d.winningPool → s.paidOut id ≤ d.poolA + d.poolB) ∧
      payout = if newClaimed = d.winningPool then d.poolA + d.poolB - s.paidOut id
        else mine * (d.poolA + d.poolB) / d.winningPool)

theorem winnerPayout_ok {s : State} {id W T mine newClaimed payout : ℕ}
    (h : winnerPayout s id W T mine newClaimed = .ok payout) :
    (newClaimed = W → s.paidOut id ≤ T) ∧
      payout = if newClaimed = W then T - s.paidOut id else mine * T / W := by
  unfold winnerPayout at h
  split at h
  · rename_i hlast
    simp only [U256.sub_ok] at h
    exact ⟨fun _ => h.1, by rw [if_pos hlast]; exact h.2.symm⟩
  · rename_i hlast
    simp only [bind_ok, U256.mul_ok, pure_ok] at h
    obtain ⟨_, ⟨-, rfl⟩, rfl⟩ := h
    exact ⟨fun h => absurd h hlast, by rw [if_neg hlast]⟩

theorem claimPayout_ok {s s' : State} {m : Msg} {id payout : ℕ} {w : Bool} {W T : ℕ}
    (hw : w = (s.duels id).winnerIsA) (hW : W = (s.duels id).winningPool)
    (hT : T = (s.duels id).poolA + (s.duels id).poolB)
    (h : claimPayout s m id w W T = .ok (s', payout)) :
    ∃ newClaimed paid, s.Entitled id m.sender newClaimed paid payout ∧
      s' = { s with
        winClaimedStake := Function.update s.winClaimedStake id newClaimed
        paidOut := Function.update s.paidOut id paid } := by
  subst hw hW hT
  unfold claimPayout at h
  split at h
  · rename_i hz
    simp only [bind_ok, U256.add_ok, pure_ok, Prod.mk.injEq] at h
    obtain ⟨_, ⟨-, rfl⟩, rfl, rfl⟩ := h
    exact ⟨_, _, .inl ⟨hz, rfl, rfl, rfl⟩, by simp⟩
  · rename_i hz
    simp only [bind_ok, revertIf_ok, U256.add_ok, pure_ok, Prod.mk.injEq] at h
    obtain ⟨_, hpos, _, ⟨-, rfl⟩, p, hp, _, ⟨-, rfl⟩, rfl, rfl⟩ := h
    obtain ⟨hle, rfl⟩ := winnerPayout_ok hp
    exact ⟨_, _, .inr ⟨hz, by omega, rfl, rfl, hle, rfl⟩, rfl⟩

/-! ## Resolution -/

/-- The Alpha winner: the higher score, `agentA` on a tie. -/
def Duel.alpha (d : Duel) : Address := if d.scoreB ≤ d.scoreA then d.agentA else d.agentB

/-- The agent's record after `_closeOutStake`. -/
def AgentInfo.closed (info : AgentInfo) : AgentInfo :=
  { info with stake := 0, failures := 0, registered := false }

/-- The developers behind a duel's agents can be paid, and the agents are two. -/
structure State.Payable (C : Config) (s : State) (d : Duel) : Prop where
  agents_ne : d.agentA ≠ d.agentB
  devA_ne : (s.agents d.agentA).developer ≠ 0
  devB_ne : (s.agents d.agentB).developer ≠ 0
  devA_self : (s.agents d.agentA).developer ≠ C.self
  devB_self : (s.agents d.agentB).developer ≠ C.self

namespace State.Payable

variable {C : Config} {s : State} {d : Duel}

/-- The Alpha winner's developer can be paid. -/
theorem alphaDev (hp : s.Payable C d) (winner : Address) :
    let dev := if winner = d.agentA then (s.agents d.agentA).developer
      else (s.agents d.agentB).developer
    dev ≠ 0 ∧ dev ≠ C.self := by
  dsimp only
  split
  · exact ⟨hp.devA_ne, hp.devA_self⟩
  · exact ⟨hp.devB_ne, hp.devB_self⟩

/-- The shield winner's developer, if there is one, is not the contract. -/
theorem shieldDev (hp : s.Payable C d) (hself : C.self ≠ 0) (shieldWinner : Address) :
    (if shieldWinner = d.agentA then (s.agents d.agentA).developer
      else if shieldWinner = d.agentB then (s.agents d.agentB).developer else 0) ≠ C.self := by
  split
  · exact hp.devA_self
  · split
    · exact hp.devB_self
    · exact hself.symm

end State.Payable

theorem closeOutStake_ok {C : Config} {s s' : State} {agent dev : Address} {forfeited : ℕ}
    (hdev : dev ≠ C.self) (h : closeOutStake C s agent dev = .ok (s', forfeited)) :
    ∃ usdc refund, Token.Sent s.usdc usdc C.self refund ∧
      refund + forfeited = (s.agents agent).stake ∧
      s' = { s with
        usdc
        agents := Function.update s.agents agent (s.agents agent).closed } := by
  simp only [closeOutStake] at h
  split at h
  · rename_i hz
    simp only [pure_ok, Prod.mk.injEq] at h
    obtain ⟨rfl, rfl⟩ := h
    exact ⟨s.usdc, 0, .refl _ _, by omega, rfl⟩
  · split at h
    · simp only [pure_ok, Prod.mk.injEq] at h
      obtain ⟨rfl, rfl⟩ := h
      exact ⟨s.usdc, 0, .refl _ _, by omega, rfl⟩
    · simp only [bind_ok, pure_ok, Prod.mk.injEq] at h
      obtain ⟨usdc, ht, rfl, rfl⟩ := h
      exact ⟨usdc, _, (Token.safeTransfer_ok ht).sent hdev.symm, rfl, rfl⟩

theorem payAlpha_ok {C : Config} {usdc usdc' : Token} {dev : Address} {prize : ℕ}
    (hne : dev ≠ 0) (hdev : dev ≠ C.self) (h : payAlpha C usdc dev prize = .ok usdc') :
    Token.Sent usdc usdc' C.self prize := by
  unfold payAlpha at h
  split at h
  · exact (Token.safeTransfer_ok h).sent hdev.symm
  · rename_i hz
    obtain rfl : prize = 0 := by
      by_contra hp
      exact hz ⟨by omega, hne⟩
    obtain rfl := pure_ok.mp h
    exact .refl _ _

theorem payShield_ok {C : Config} {usdc usdc' : Token} {alphaDev shieldDev : Address} {prize : ℕ}
    (hne : alphaDev ≠ 0) (halpha : alphaDev ≠ C.self) (hshield : shieldDev ≠ C.self)
    (h : payShield C usdc alphaDev shieldDev prize = .ok usdc') :
    Token.Sent usdc usdc' C.self prize := by
  unfold payShield at h
  split at h
  · split at h
    · exact (Token.safeTransfer_ok h).sent hshield.symm
    · exact (Token.safeTransfer_ok h).sent halpha.symm
  · rename_i hz
    obtain rfl : prize = 0 := by omega
    obtain rfl := pure_ok.mp h
    exact .refl _ _

theorem resolve_ok {C : Config} {s s' : State} {m : Msg} {id : ℕ} (hself : C.self ≠ 0)
    (hp : s.Payable C (s.duels id)) (h : resolve C s m id = .ok s') :
    (s.duels id).status = .live ∧ (s.duels id).endsAt ≤ m.timestamp ∧
      ∃ usdc shieldWinner, s.ironShieldWinner (s.duels id) = .ok shieldWinner ∧
        Token.Sent s.usdc usdc C.self (s.prizePool id + (s.agents (s.duels id).agentA).stake +
          (s.agents (s.duels id).agentB).stake) ∧
        s' = { s with
          usdc
          duels := Function.update s.duels id
            { s.duels id with status := .resolved, winner := (s.duels id).alpha, shieldWinner }
          prizePool := Function.update s.prizePool id 0
          agents := Function.update
            (Function.update s.agents (s.duels id).agentA (s.agents (s.duels id).agentA).closed)
            (s.duels id).agentB (s.agents (s.duels id).agentB).closed } := by
  simp only [resolve, bind_ok, revertIf_ok, existingDuel_ok, U256.add_ok, U256.sub_ok, pure_ok,
    Prod.exists] at h
  obtain ⟨d, ⟨rfl, hex⟩, _, hres, _, htime, shield, hs, s₁, forfeitA, hA, pool₁, ⟨-, rfl⟩, s₂,
    forfeitB, hB, pool₂, ⟨-, rfl⟩, prize, ⟨hle, rfl⟩, usdc₁, halpha, usdc₂, hshield, rfl⟩ := h
  obtain ⟨uA, refundA, hsA, hsumA, rfl⟩ := closeOutStake_ok hp.devA_self hA
  obtain ⟨uB, refundB, hsB, hsumB, rfl⟩ := closeOutStake_ok hp.devB_self hB
  simp only [Function.update_of_ne hp.agents_ne.symm] at hsA hsB hsumA hsumB halpha ⊢
  have hdev := hp.alphaDev (s.duels id).alpha
  have hα := payAlpha_ok hdev.1 hdev.2 halpha
  have hσ := payShield_ok hdev.1 hdev.2 (hp.shieldDev hself shield) hshield
  refine ⟨?_, by omega, usdc₂, shield, hs, ?_, rfl⟩
  · cases hst : (s.duels id).status with
    | none => exact absurd hst hex
    | live => rfl
    | resolved => exact absurd hst hres
  · have := ((hsA.trans hsB).trans hα).trans hσ
    convert this using 1
    omega

/-! ## One call -/

/-- The recorder's setters. -/
def Call.setter : Call → Bool
  | .setItemPrice _ _ | .setTreasury _ | .setStakeRequirement _ | .setOperatorCutBps _
  | .setFailureThreshold _ | .setShieldMinScore _ => true
  | _ => false

/-- What an accepted call does. -/
inductive Effect (C : Config) (s : State) (e : Event) : State → Prop
  | register (agent : Address) (usdc : Token) :
      e.call = .registerAgent agent → agent ≠ 0 → (s.agents agent).registered = false →
      Token.Received s.usdc usdc C.self s.stakeRequirement →
      Effect C s e { s with
        usdc
        agents := Function.update s.agents agent ⟨e.msg.sender, s.stakeRequirement, 0, true⟩ }
  | create (agentA agentB : Address) (bettingSecs tradingSecs : ℕ) :
      e.call = .createDuel agentA agentB bettingSecs tradingSecs →
      agentA ≠ agentB → (s.agents agentA).registered = true →
      (s.agents agentB).registered = true → e.ret = s.duelCount + 1 →
      Effect C s e { s with
        duelCount := s.duelCount + 1
        duels := Function.update s.duels (s.duelCount + 1) { s.duels (s.duelCount + 1) with
          agentA, agentB
          startAt := e.msg.timestamp
          tradingStartsAt := e.msg.timestamp + bettingSecs
          endsAt := e.msg.timestamp + bettingSecs + tradingSecs
          status := .live } }
  | report (id : ℕ) (agent : Address) (i : ℕ) (rBps : ℤ) (ing surv failed : Bool)
      (scoreA scoreB : ℤ) (ingested survived : Address → ℕ) (failures : ℕ) (s' : State) :
      e.call = .reportCall id agent i rBps ing surv failed → (s.duels id).status = .live →
      (agent = (s.duels id).agentA ∨ agent = (s.duels id).agentB) →
      (∀ a, survived a ≤ s.survivedInjections a + 1) →
      Settled C (s.scored id agent scoreA scoreB ingested survived failures) id agent i surv s' →
      Effect C s e s'
  | resolve (id : ℕ) (usdc : Token) (shieldWinner : Address) :
      e.call = .resolve id → (s.duels id).status = .live →
      (s.duels id).endsAt ≤ e.msg.timestamp →
      s.ironShieldWinner (s.duels id) = .ok shieldWinner →
      Token.Sent s.usdc usdc C.self (s.prizePool id + (s.agents (s.duels id).agentA).stake +
        (s.agents (s.duels id).agentB).stake) →
      Effect C s e { s with
        usdc
        duels := Function.update s.duels id
          { s.duels id with status := .resolved, winner := (s.duels id).alpha, shieldWinner }
        prizePool := Function.update s.prizePool id 0
        agents := Function.update
          (Function.update s.agents (s.duels id).agentA (s.agents (s.duels id).agentA).closed)
          (s.duels id).agentB (s.agents (s.duels id).agentB).closed }
  | bet (id : ℕ) (onA : Bool) (amount : ℕ) (usdc : Token) :
      e.call = .bet id onA amount → (s.duels id).status = .live →
      e.msg.timestamp < (s.duels id).tradingStartsAt →
      (s.duels id).pool onA + amount < 2 ^ 256 → Token.Received s.usdc usdc C.self amount →
      Effect C s e { s with
        usdc
        betOf := Function.update s.betOf id (Function.update (s.betOf id) onA
          (Function.update (s.betOf id onA) e.msg.sender (s.betOf id onA e.msg.sender + amount)))
        duels := Function.update s.duels id (if onA
          then { s.duels id with poolA := (s.duels id).poolA + amount }
          else { s.duels id with poolB := (s.duels id).poolB + amount }) }
  | inject (id : ℕ) (target : Address) (itemKind escrow : ℕ) (usdc : Token) :
      e.call = .injectChaos id target itemKind → (s.duels id).status = .live →
      (s.duels id).tradingStartsAt ≤ e.msg.timestamp →
      (target = (s.duels id).agentA ∨ target = (s.duels id).agentB) →
      Token.Received s.usdc usdc C.self escrow → e.ret = s.injectionCount + 1 →
      Effect C s e { s with
        usdc
        injectionCount := s.injectionCount + 1
        injectionEscrows := Function.update s.injectionEscrows (s.injectionCount + 1) escrow
        injectionTarget := Function.update s.injectionTarget (s.injectionCount + 1) target
        injectionsAgainst := Function.update s.injectionsAgainst id
          (Function.update (s.injectionsAgainst id) target (s.injectionsAgainst id target + 1)) }
  | fund (id amount : ℕ) (usdc : Token) :
      e.call = .fundPrizePool id amount → (s.duels id).status ≠ .none → 0 < amount →
      Token.Received s.usdc usdc C.self amount →
      Effect C s e { s with
        usdc
        prizePool := Function.update s.prizePool id (s.prizePool id + amount) }
  | claim (id newClaimed paid : ℕ) (usdc : Token) :
      e.call = .claim id → (s.duels id).status = .resolved →
      s.claimed id e.msg.sender = false →
      s.Entitled id e.msg.sender newClaimed paid e.ret → 0 < e.ret →
      Token.Moved s.usdc usdc C.self e.msg.sender e.ret →
      Effect C s e { s with
        usdc
        winClaimedStake := Function.update s.winClaimedStake id newClaimed
        paidOut := Function.update s.paidOut id paid
        claimed := Function.update s.claimed id
          (Function.update (s.claimed id) e.msg.sender true) }
  | params (itemPrice : ℕ → ℕ) (treasury : Address) (stakeRequirement operatorCutBps
        failureThreshold : ℕ) (shieldMinScore : ℤ) :
      e.call.setter = true → treasury ≠ C.self ∨ treasury = s.treasury →
      Effect C s e { s with
        itemPrice, treasury, stakeRequirement, operatorCutBps, failureThreshold, shieldMinScore }
  | token (op : Token.Op) (usdc : Token) :
      e.call = .usdc op → op.credit C.self = 0 → op.exec s.usdc e.msg.sender = .ok usdc →
      Effect C s e { s with usdc }

section Calls

variable {C : Config} {s s' : State} {m : Msg} {r : ℕ}

theorem void_ok {x : Tx Error State} : void x = .ok (s', r) ↔ x = .ok s' ∧ 0 = r := by
  simp only [void, bind_ok, pure_ok, Prod.mk.injEq]
  constructor
  · rintro ⟨s₁, hx, rfl, rfl⟩; exact ⟨hx, rfl⟩
  · rintro ⟨hx, rfl⟩; exact ⟨s', hx, rfl, rfl⟩

theorem registerAgent_effect {agent : Address} (hm : m.sender ≠ C.self)
    (h : registerAgent C s m agent = .ok s') : Effect C s ⟨m, .registerAgent agent, r⟩ s' := by
  simp only [registerAgent, bind_ok, revertIf_ok, pure_ok, Bool.not_eq_true] at h
  obtain ⟨_, hne, _, hreg, usdc, hu, rfl⟩ := h
  exact .register agent usdc rfl hne hreg (pullStake_ok hm hu)

theorem createDuel_effect {agentA agentB : Address} {bettingSecs tradingSecs : ℕ}
    (h : createDuel C s m agentA agentB bettingSecs tradingSecs = .ok (s', r)) :
    Effect C s ⟨m, .createDuel agentA agentB bettingSecs tradingSecs, r⟩ s' := by
  simp only [createDuel, bind_ok, revertIf_ok, pure_ok, U256.add_ok, U64.add_ok, not_or,
    Bool.not_eq_false, m.cast_timestamp, Prod.mk.injEq] at h
  obtain ⟨_, -, _, -, _, hne, _, -, _, hreg, _, ⟨-, rfl⟩, _, ⟨-, rfl⟩, _, ⟨-, rfl⟩, rfl, rfl⟩ := h
  exact .create agentA agentB bettingSecs tradingSecs rfl hne hreg.1 hreg.2 rfl

theorem reportCall_effect {id : ℕ} {agent : Address} {i : ℕ} {rBps : ℤ} {ing surv failed : Bool}
    (h : reportCall C s m id agent i rBps ing surv failed = .ok s') :
    Effect C s ⟨m, .reportCall id agent i rBps ing surv failed, r⟩ s' := by
  simp only [reportCall, bind_ok, revertIf_ok, liveDuel_ok] at h
  obtain ⟨_, -, _, ⟨rfl, hlive⟩, _, hside, d, hd, s₁, hi, s₂, hf, hs⟩ := h
  obtain ⟨scoreA, scoreB, rfl⟩ := recordScore_ok hd
  obtain ⟨ingested, survived, rfl, hsurv⟩ := recordIngestion_ok hi
  obtain ⟨failures, rfl⟩ := recordFailure_ok hf
  refine .report id agent i rBps ing surv failed scoreA scoreB ingested survived failures s' rfl
    hlive ?_ hsurv (settleBounty_ok hs)
  by_contra hn
  rw [not_or] at hn
  exact hside hn

theorem resolve_effect {id : ℕ} (hself : C.self ≠ 0)
    (hp : (s.duels id).status ≠ .none → s.Payable C (s.duels id))
    (h : resolve C s m id = .ok s') : Effect C s ⟨m, .resolve id, r⟩ s' := by
  have hex : (s.duels id).status ≠ .none := by
    simp only [resolve, bind_ok, existingDuel_ok] at h
    obtain ⟨d, ⟨rfl, hex⟩, -⟩ := h
    exact hex
  obtain ⟨hlive, htime, usdc, shield, hs, hu, rfl⟩ := resolve_ok hself (hp hex) h
  exact .resolve id usdc shield rfl hlive htime hs hu

theorem bet_effect {id : ℕ} {onA : Bool} {amount : ℕ} (hm : m.sender ≠ C.self)
    (h : bet C s m id onA amount = .ok s') : Effect C s ⟨m, .bet id onA amount, r⟩ s' := by
  simp only [bet, bind_ok, revertIf_ok, liveDuel_ok, U256.add_ok, pure_ok] at h
  obtain ⟨_, ⟨rfl, hlive⟩, _, htime, _, -, usdc, hu, _, ⟨-, rfl⟩, d, hd, rfl⟩ := h
  obtain ⟨hlt, rfl⟩ := addToPool_ok hd
  exact .bet id onA amount usdc rfl hlive (by simpa using htime) hlt
    ((Token.safeTransferFrom_ok hu).received hm)

theorem injectChaos_effect {id : ℕ} {target : Address} {itemKind : ℕ} (hm : m.sender ≠ C.self)
    (htr : s.treasury ≠ C.self) (h : injectChaos C s m id target itemKind = .ok (s', r)) :
    Effect C s ⟨m, .injectChaos id target itemKind, r⟩ s' := by
  simp only [injectChaos, bind_ok, revertIf_ok, liveDuel_ok, U256.add_ok, U256.mul_ok, U256.sub_ok,
    pure_ok, Prod.mk.injEq] at h
  obtain ⟨_, ⟨rfl, hlive⟩, _, htime, _, hside, _, -, _, -, usdc₁, hu₁, _, ⟨-, rfl⟩, _, ⟨hcut, rfl⟩,
    _, ⟨-, rfl⟩, _, ⟨-, rfl⟩, usdc₂, hu₂, rfl, rfl⟩ := h
  refine .inject id target itemKind _ usdc₂ rfl hlive (by simpa using htime) ?_
    (((Token.safeTransferFrom_ok hu₁).received hm).sent (payOperator_ok htr hu₂) hcut) rfl
  by_contra hn
  rw [not_or] at hn
  exact hside hn

theorem fundPrizePool_effect {id amount : ℕ} (hm : m.sender ≠ C.self)
    (h : fundPrizePool C s m id amount = .ok s') :
    Effect C s ⟨m, .fundPrizePool id amount, r⟩ s' := by
  simp only [fundPrizePool, bind_ok, revertIf_ok, existingDuel_ok, U256.add_ok, pure_ok] at h
  obtain ⟨_, ⟨rfl, hex⟩, _, hpos, usdc, hu, _, ⟨-, rfl⟩, rfl⟩ := h
  exact .fund id amount usdc rfl hex (by omega) ((Token.safeTransferFrom_ok hu).received hm)

theorem claim_effect {id : ℕ} (h : claim C s m id = .ok (s', r)) :
    Effect C s ⟨m, .claim id, r⟩ s' := by
  simp only [claim, bind_ok, revertIf_ok, existingDuel_ok, U256.add_ok, pure_ok, Prod.exists,
    Prod.mk.injEq, not_not, Bool.not_eq_true] at h
  obtain ⟨_, ⟨rfl, -⟩, _, hres, _, hcl, _, ⟨-, rfl⟩, s₁, payout, hp, _, hpos, usdc, hu, rfl,
    rfl⟩ := h
  obtain ⟨newClaimed, paid, hent, rfl⟩ := claimPayout_ok rfl rfl rfl hp
  exact .claim id newClaimed paid usdc rfl hres hcl hent (Nat.pos_of_ne_zero hpos)
    (Token.safeTransfer_ok hu)

end Calls

end Colosseum
end Arcane
