import Arcane.Colosseum.Book
import Mathlib.Algebra.BigOperators.Intervals

/-!
# Solvency of the Colosseum

The contract holds exactly what it owes: the agents' stakes, the escrows of unsettled injections,
the prize pools and the outstanding pots of the duels (`State.liabilities`). Every step keeps the
equality (`Solvent.step`), so it holds in every reachable state.
-/

namespace Arcane
namespace Colosseum

open Evm

/-- What duel `id` still owes its bettors. -/
noncomputable def State.outstanding (s : State) (id : ℕ) : ℕ :=
  match (s.duels id).status with
  | .none => 0
  | .live => (s.duels id).poolA + (s.duels id).poolB
  | .resolved =>
    if (s.duels id).winningPool = 0 then
      ∑ a with s.claimed id a = false, (s.betOf id true a + s.betOf id false a)
    else (s.duels id).poolA + (s.duels id).poolB - s.paidOut id

namespace State

noncomputable def lockedStakes (s : State) : ℕ := ∑ a, (s.agents a).stake

def escrowed (s : State) : ℕ := ∑ i ∈ Finset.Icc 1 s.injectionCount, s.injectionEscrows i

def prizes (s : State) : ℕ := ∑ id ∈ Finset.Icc 1 s.duelCount, s.prizePool id

noncomputable def pots (s : State) : ℕ := ∑ id ∈ Finset.Icc 1 s.duelCount, s.outstanding id

/-- What the contract owes. -/
noncomputable def liabilities (s : State) : ℕ := s.lockedStakes + s.escrowed + s.prizes + s.pots

/-- The contract's state has a book for every duel. -/
def Books (s : State) : Prop := ∀ id, ∃ b, s.Represents id b

end State

/-- The invariant: a well-formed state with books, whose balance is what it owes. -/
structure Solvent (C : Config) (s : State) : Prop where
  wf : WellFormed C s
  books : s.Books
  balance : s.usdc.balanceOf C.self = s.liabilities

/-- What the call stakes on duel `id`. -/
def Event.staked (e : Event) (id : ℕ) : ℕ :=
  match e.call with
  | .bet id' _ amount => if id' = id then amount else 0
  | _ => 0

/-- What the call is paid out of the pot of duel `id`. -/
def Event.claimed (e : Event) (id : ℕ) : ℕ :=
  match e.call with
  | .claim id' => if id' = id then e.ret else 0
  | _ => 0

theorem Event.onBook_inflow (e : Event) (s : State) (id : ℕ) :
    ((e.onBook s id).map (·.inflow)).getD 0 = e.staked id := by
  unfold Event.onBook Event.staked
  cases e.call <;> first | rfl | (dsimp only; split <;> rfl)

theorem Event.onBook_outflow (e : Event) (s : State) (id : ℕ) :
    ((e.onBook s id).map (·.outflow)).getD 0 = e.claimed id := by
  unfold Event.onBook Event.claimed
  cases e.call <;> first | rfl | (dsimp only; split <;> rfl)

theorem Event.staked_of_setter {e : Event} (h : e.call.setter = true) (id : ℕ) :
    e.staked id = 0 := by
  unfold Event.staked
  cases hc : e.call <;> simp_all [Call.setter]

theorem Event.claimed_of_setter {e : Event} (h : e.call.setter = true) (id : ℕ) :
    e.claimed id = 0 := by
  unfold Event.claimed
  cases hc : e.call <;> simp_all [Call.setter]

/-! ## How the sums change -/

section Sums

variable {C : Config} {s s' : State} {e : Event} {id : ℕ} {b : Parimutuel.Book Address}

/-- The debt of a duel is the debt of its book. -/
theorem State.Represents.outstanding (hwf : WellFormed C s) (h : s.Represents id b) :
    s.outstanding id = b.outstanding := by
  unfold State.outstanding
  split
  · rename_i hs
    have hb : b.winner = none := by rw [h.winner]; simp [Duel.outcome, hs]
    rw [Parimutuel.Book.outstanding_open hb, ← h.total, (hwf.blank id hs).1]
    rfl
  · rename_i hs
    rw [Parimutuel.Book.outstanding_open (h.winner_of_live hs), h.total]
  · rename_i hs
    have hw := h.winner_of_resolved hs
    have hW : (s.duels id).winningPool = b.pool (s.duels id).winnerIsA := h.pool _
    rw [hW, h.total]
    split
    · rename_i hz
      rw [Parimutuel.Book.outstanding_refund hw hz]
      refine Finset.sum_congr ?_ fun a _ => by rw [Parimutuel.Book.both, h.stake]
      ext a
      simp [h.claimed]
    · rename_i hz
      have := Parimutuel.Book.paid_add_outstanding hw
      rw [(h.counters _ hw hz).2]
      omega

/-- One call changes what a duel owes by the bet or the claim that it is. -/
theorem Effect.outstanding (hwf : WellFormed C s) (hwf' : WellFormed C s') (h : s.Represents id b)
    (he : Effect C s e s') :
    s'.outstanding id + e.claimed id = s.outstanding id + e.staked id := by
  obtain ⟨b', h', hst⟩ := h.step hwf he
  rw [h.outstanding hwf, h'.outstanding hwf', ← e.onBook_outflow s id, ← e.onBook_inflow s id]
  cases hev : e.onBook s id with
  | none =>
    rw [hev] at hst
    simp [hst]
  | some ev =>
    rw [hev] at hst
    exact hst.outstanding

/-- The pots of all duels change by the bet or the claim that the call is. -/
theorem Effect.pots (hwf : WellFormed C s) (hwf' : WellFormed C s') (hb : s.Books)
    (he : Effect C s e s') (hc : s'.duelCount = s.duelCount) :
    s'.pots + ∑ id ∈ Finset.Icc 1 s.duelCount, e.claimed id =
      s.pots + ∑ id ∈ Finset.Icc 1 s.duelCount, e.staked id := by
  unfold State.pots
  rw [hc, ← Finset.sum_add_distrib, ← Finset.sum_add_distrib]
  refine Finset.sum_congr rfl ?_
  intro id _
  obtain ⟨b, h⟩ := hb id
  exact he.outstanding hwf hwf' h

/-- A new duel owes nothing. -/
theorem State.pots_create (hwf : WellFormed C s) (hwf' : WellFormed C s') (hb : s.Books)
    (he : Effect C s e s') {agentA agentB : Address} {bettingSecs tradingSecs : ℕ}
    (hcall : e.call = .createDuel agentA agentB bettingSecs tradingSecs)
    (hc : s'.duelCount = s.duelCount + 1) :
    s'.pots = s.pots ∧ s.prizePool (s.duelCount + 1) = 0 := by
  have hout : ∀ id, s'.outstanding id = s.outstanding id := by
    intro id
    obtain ⟨b, h⟩ := hb id
    simpa [Event.claimed, Event.staked, hcall] using he.outstanding hwf hwf' h
  have hz : s.outstanding (s.duelCount + 1) = 0 := by
    unfold State.outstanding
    rw [hwf.next_blank]
  refine ⟨?_, (hwf.blank _ hwf.next_blank).2⟩
  unfold State.pots
  rw [hc, Finset.sum_Icc_succ_top (by omega), hout, hz, Nat.add_zero]
  exact Finset.sum_congr rfl fun id _ => hout id

theorem sum_stake_update (f : Address → AgentInfo) (a : Address) (info : AgentInfo) :
    ∑ x, (Function.update f a info x).stake + (f a).stake = ∑ x, (f x).stake + info.stake :=
  Mapping.sum_map_update (Finset.mem_univ a) AgentInfo.stake f info

theorem WellFormed.mem_duels (h : WellFormed C s) (hex : (s.duels id).status ≠ .none) :
    id ∈ Finset.Icc 1 s.duelCount :=
  Finset.mem_Icc.mpr ((h.counted id).mp hex)

theorem WellFormed.mem_injections (h : WellFormed C s) {i : ℕ} (hi : s.injectionEscrows i ≠ 0) :
    i ∈ Finset.Icc 1 s.injectionCount := by
  rw [Finset.mem_Icc]
  by_contra hn
  exact hi (h.escrows i (by omega))

/-- The escrows after a settlement, and the prize pool that it may feed. -/
theorem Settled.balance (hwf : WellFormed C s) {agent : Address} {i : ℕ} {surv : Bool}
    (hlive : (s.duels id).status = .live) (h : Settled C s id agent i surv s') :
    s'.usdc.balanceOf C.self + s.escrowed + s.prizes =
      s.usdc.balanceOf C.self + s'.escrowed + s'.prizes := by
  cases h with
  | idle _ => rfl
  | bounty usdc _ he _ _ _ hu =>
    have hsum := Mapping.sum_update (hwf.mem_injections he) s.injectionEscrows 0
    have hbal := hu.src (hwf.info agent).developer.symm
    simp only [State.escrowed, State.prizes]
    omega
  | pooled _ he _ _ =>
    have hsum := Mapping.sum_update (hwf.mem_injections he) s.injectionEscrows 0
    have hprize := Mapping.sum_update (hwf.mem_duels (Status.exists_of_live hlive)) s.prizePool
      (s.prizePool id + s.injectionEscrows i)
    simp only [State.escrowed, State.prizes]
    omega

/-- A settlement moves no stake and makes no duel. -/
theorem Settled.frame {agent : Address} {i : ℕ} {surv : Bool}
    (h : Settled C s id agent i surv s') :
    s'.duelCount = s.duelCount ∧ s'.lockedStakes = s.lockedStakes := by
  cases h <;> exact ⟨rfl, rfl⟩

end Sums

/-! ## The invariant is kept -/

namespace Solvent

variable {C : Config} {s s' : State} {e : Event}

theorem deployed (h : Deployed C s) : Solvent C s where
  wf := .deployed h
  books id := ⟨_, .deployed h id⟩
  balance := by
    rw [h.balance]
    rw [h.eq_initial]
    simp [State.initial, State.liabilities, State.lockedStakes, State.escrowed, State.prizes,
      State.pots, AgentInfo.empty]

/-- The balance follows the debts. -/
theorem balance_step (h : Solvent C s) (hm : e.msg.sender ≠ C.self) (hwf' : WellFormed C s')
    (he : Effect C s e s') : s'.usdc.balanceOf C.self = s'.liabilities := by
  have hwf := h.wf
  have hbal := h.balance
  have hpots := he.pots hwf hwf' h.books
  unfold State.liabilities at hbal ⊢
  cases he with
  | register agent usdc hc _ hreg hu =>
    have hp := hpots rfl
    simp only [Event.claimed, Event.staked, hc, Finset.sum_const_zero] at hp
    have hsum := sum_stake_update s.agents agent ⟨e.msg.sender, s.stakeRequirement, 0, true⟩
    rw [(hwf.info agent).unregistered hreg] at hsum
    have hu := hu.balance
    simp only [State.lockedStakes, State.escrowed, State.prizes] at *
    omega
  | create agentA agentB bettingSecs tradingSecs hc hne hA hB hret =>
    have he := Effect.create (C := C) agentA agentB bettingSecs tradingSecs hc hne hA hB hret
    obtain ⟨hp, hz⟩ := State.pots_create hwf hwf' h.books he hc rfl
    simp only [State.lockedStakes, State.escrowed, State.prizes] at *
    rw [Finset.sum_Icc_succ_top (by omega), hz, hp]
    exact hbal
  | report id agent i rBps ing surv failed scoreA scoreB ingested survived failures s' hc hlive _
      _ hs =>
    have hp := hpots hs.frame.1
    simp only [Event.claimed, Event.staked, hc, Finset.sum_const_zero] at hp
    have hsum := sum_stake_update s.agents agent { s.agents agent with failures }
    have hmoney := hs.balance (hwf.scored hlive) (by simp [State.scored, hlive])
    have hstakes := hs.frame.2
    simp only [State.scored, State.lockedStakes, State.escrowed, State.prizes] at *
    omega
  | resolve id usdc shieldWinner hc hlive _ _ hu =>
    have hp := hpots rfl
    simp only [Event.claimed, Event.staked, hc, Finset.sum_const_zero] at hp
    have hne := hwf.sides id (by simp [hlive])
    have hA := sum_stake_update s.agents (s.duels id).agentA
      (s.agents (s.duels id).agentA).closed
    have hB := sum_stake_update (Function.update s.agents (s.duels id).agentA
      (s.agents (s.duels id).agentA).closed) (s.duels id).agentB
      (s.agents (s.duels id).agentB).closed
    have hprize := Mapping.sum_update (hwf.mem_duels (Status.exists_of_live hlive)) s.prizePool 0
    have hu := hu.balance
    simp only [AgentInfo.closed, Function.update_of_ne hne.symm] at hA hB
    simp only [State.lockedStakes, State.escrowed, State.prizes, AgentInfo.closed] at *
    omega
  | bet id onA amount usdc hc hlive _ _ hu =>
    have hp := hpots rfl
    simp only [Event.claimed, Event.staked, hc, Finset.sum_const_zero, Finset.sum_ite_eq,
      if_pos (hwf.mem_duels (Status.exists_of_live hlive))] at hp
    have hu := hu.balance
    simp only [State.lockedStakes, State.escrowed, State.prizes] at *
    omega
  | inject id target itemKind escrow usdc hc _ _ _ hu _ =>
    have hp := hpots rfl
    simp only [Event.claimed, Event.staked, hc, Finset.sum_const_zero] at hp
    have hu := hu.balance
    have hsum : ∑ i ∈ Finset.Icc 1 (s.injectionCount + 1),
        Function.update s.injectionEscrows (s.injectionCount + 1) escrow i =
          s.escrowed + escrow := by
      rw [Finset.sum_Icc_succ_top (by omega), Function.update_self]
      congr 1
      refine Finset.sum_congr rfl fun i hi => Function.update_of_ne ?_ _ _
      have := (Finset.mem_Icc.mp hi).2
      omega
    simp only [State.lockedStakes, State.escrowed, State.prizes] at *
    omega
  | fund id amount usdc hc hex _ hu =>
    have hp := hpots rfl
    simp only [Event.claimed, Event.staked, hc, Finset.sum_const_zero] at hp
    have hprize := Mapping.sum_update (hwf.mem_duels hex) s.prizePool (s.prizePool id + amount)
    have hu := hu.balance
    simp only [State.lockedStakes, State.escrowed, State.prizes] at *
    omega
  | claim id newClaimed paid usdc hc hres _ _ _ hu =>
    have hp := hpots rfl
    simp only [Event.claimed, Event.staked, hc, Finset.sum_const_zero, Finset.sum_ite_eq,
      if_pos (hwf.mem_duels (Status.exists_of_resolved hres))] at hp
    have hu := hu.src hm.symm
    simp only [State.lockedStakes, State.escrowed, State.prizes] at *
    omega
  | params itemPrice treasury stakeRequirement operatorCutBps failureThreshold shieldMinScore hc
      _ =>
    have hp := hpots rfl
    simp only [Event.claimed_of_setter hc, Event.staked_of_setter hc, Finset.sum_const_zero] at hp
    simp only [State.lockedStakes, State.escrowed, State.prizes] at *
    omega
  | token op usdc hc hcredit hu =>
    have hp := hpots rfl
    simp only [Event.claimed, Event.staked, hc, Finset.sum_const_zero] at hp
    have hu := (Token.Op.exec_held hm hwf.reserved hu).1
    simp only [State.lockedStakes, State.escrowed, State.prizes] at *
    omega

theorem step (h : Solvent C s) (hst : Step C s e s') : Solvent C s' := by
  have he := hst.effect h.wf
  have hwf' := hst.wellFormed h.wf
  refine ⟨hwf', fun id => ?_, h.balance_step hst.1.1 hwf' he⟩
  obtain ⟨b, hb⟩ := h.books id
  obtain ⟨b', hb', -⟩ := hb.step h.wf he
  exact ⟨b', hb'⟩

end Solvent

theorem Run.solvent {C : Config} {s₀ s : State} {tr : List (Trace.Step State Event)}
    (h₀ : Deployed C s₀) (h : Run C s₀ tr s) : Solvent C s :=
  h.invariant (.deployed h₀) fun _ _ _ hs hst => hs.step hst

/-- A duel's claims never add up to more than its pools. -/
theorem Run.sum_claims_le {C : Config} {s₀ s : State} {tr : List (Trace.Step State Event)}
    (h₀ : Deployed C s₀) (h : Run C s₀ tr s) (id : ℕ) :
    ((claimsOn id tr).map Prod.snd).sum ≤ (s.duels id).poolA + (s.duels id).poolB := by
  obtain ⟨b, hrep, hset⟩ := h.settled h₀ id
  rw [hrep.total]
  cases hw : b.winner with
  | none => simp [hset.unclaimed hw]
  | some w =>
    rw [← hset.paid w hw]
    exact b.paid_le w

/-- In every reachable state the contract's balance is exactly what it owes, and no duel paid its
bettors more than its own pools. -/
theorem balance_eq_liabilities {C : Config} {s₀ s : State} {tr : List (Trace.Step State Event)}
    (h₀ : Deployed C s₀) (h : Run C s₀ tr s) :
    s.usdc.balanceOf C.self =
        ∑ a, (s.agents a).stake + ∑ i ∈ Finset.Icc 1 s.injectionCount, s.injectionEscrows i +
          ∑ id ∈ Finset.Icc 1 s.duelCount, s.prizePool id +
          ∑ id ∈ Finset.Icc 1 s.duelCount, s.outstanding id ∧
      ∀ id, ((claimsOn id tr).map Prod.snd).sum ≤ (s.duels id).poolA + (s.duels id).poolB :=
  ⟨(Run.solvent h₀ h).balance, Run.sum_claims_le h₀ h⟩

/-! ## A run -/

namespace Demo

/-- A contract with recorder `0xBEEF`, on a token before its first mint. -/
def config : Config := ⟨0xC0, 0x3600, 0xBEEF⟩

def start : State := .initial .empty 0x7EA5

theorem deployed : Deployed config start where
  self_ne := by decide
  deploy := rfl
  treasury := by decide
  balance := rfl
  reserved _ := rfl

/-- Two developers and two bettors get USDC and approve the contract. -/
def funding : List (Msg × Call) :=
  [(.of 0xDA 0, .usdc (.mint 0xDA 100000000)),
    (.of 0xDB 0, .usdc (.mint 0xDB 100000000)),
    (.of 0xE1 0, .usdc (.mint 0xE1 10000000)),
    (.of 0xE2 0, .usdc (.mint 0xE2 10000000)),
    (.of 0xDA 0, .usdc (.approve 0xC0 100000000)),
    (.of 0xDB 0, .usdc (.approve 0xC0 100000000)),
    (.of 0xE1 0, .usdc (.approve 0xC0 10000000)),
    (.of 0xE2 0, .usdc (.approve 0xC0 10000000))]

/-- A duel between two agents, with a bet on each side, an injection and a sponsor. -/
def duel : List (Msg × Call) :=
  funding ++ [(.of 0xDA 1, .registerAgent 0xA1),
    (.of 0xDB 1, .registerAgent 0xA2),
    (.of 0xBEEF 2, .createDuel 0xA1 0xA2 10 10),
    (.of 0xE1 3, .bet 1 true 3),
    (.of 0xE2 3, .bet 1 false 4),
    (.of 0xE2 13, .injectChaos 1 0xA1 0),
    (.of 0xE2 13, .fundPrizePool 1 7)]

/-- The money of `Demo.duel`: two stakes, an escrow, a prize pool and two bets. -/
theorem duel_balance : ∃ tr s, Run config start tr s ∧ tr.length = 15 ∧
    s.usdc.balanceOf config.self = 100450014 ∧
    ∑ a, (s.agents a).stake + ∑ i ∈ Finset.Icc 1 s.injectionCount, s.injectionEscrows i +
      ∑ id ∈ Finset.Icc 1 s.duelCount, s.prizePool id +
      ∑ id ∈ Finset.Icc 1 s.duelCount, s.outstanding id = 100450014 := by
  have h : (play config start duel).map (fun r => (r.1.length, r.2.usdc.balanceOf 0xC0)) =
      some (15, 100450014) := by decide +kernel
  obtain ⟨r, hr, hv⟩ := Option.map_eq_some_iff.mp h
  obtain ⟨hlen, hbal⟩ := Prod.mk.inj hv
  have hrun := Run.of_play hr
  exact ⟨r.1, r.2, hrun, hlen, hbal, (balance_eq_liabilities deployed hrun).1 ▸ hbal⟩

end Demo

end Colosseum
end Arcane
