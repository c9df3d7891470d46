import Arcane.Colosseum.Frame
import Arcane.Colosseum.Payout

/-!
# No stuck duel

A live duel whose trading is over can be resolved, and after that every claim goes through. Each
transfer is covered because the contract is solvent, and no sum overflows because USDC's supply
bounds the money and the number of calls bounds the resilience counters.

* `resolve_succeeds`: the resolution in one state, from solvency and the bound on the counters.
* `Run.survived_le`, `Run.pools_lt`: the bounds, along a run.
-/

namespace Arcane
namespace Colosseum

open Evm

section Resolve

variable {C : Config} {s : State} {m : Msg} {id : ℕ} {d : Duel}

theorem resilienceRatio_succeeds {a : Address} (h : s.survivedInjections a * 10000 < 2 ^ 256) :
    ∃ r, s.resilienceRatio a = .ok r := by
  simp only [State.resilienceRatio]
  split
  · exact ⟨0, rfl⟩
  · simp only [bind_ok, U256.mul_ok, pure_ok]
    exact ⟨_, _, ⟨h, rfl⟩, rfl⟩

theorem ironShieldWinner_succeeds (h : ∀ a, s.survivedInjections a * 10000 < 2 ^ 256) :
    ∃ a, s.ironShieldWinner d = .ok a := by
  obtain ⟨rA, hA⟩ := resilienceRatio_succeeds (h d.agentA)
  obtain ⟨rB, hB⟩ := resilienceRatio_succeeds (h d.agentB)
  simp only [State.ironShieldWinner]
  split
  · simp only [bind_ok, pure_ok]
    exact ⟨_, rA, hA, rB, hB, rfl⟩
  · split
    · exact ⟨_, rfl⟩
    · split <;> exact ⟨_, rfl⟩

theorem closeOutStake_succeeds (agent : Address) {dev : Address} (hself : C.self ≠ 0)
    (hdev : dev ≠ 0) (hle : (s.agents agent).stake ≤ s.usdc.balanceOf C.self) :
    ∃ s' forfeited, closeOutStake C s agent dev = .ok (s', forfeited) := by
  simp only [closeOutStake]
  split
  · exact ⟨_, _, rfl⟩
  · split
    · exact ⟨_, _, rfl⟩
    · obtain ⟨usdc, hu⟩ := Token.safeTransfer_succeeds (ε := Error) hself hdev hle
      simp only [bind_ok, pure_ok, Prod.mk.injEq]
      exact ⟨_, _, usdc, hu, rfl, rfl⟩

theorem payAlpha_succeeds {usdc : Token} {prize : ℕ} (dev : Address) (hself : C.self ≠ 0)
    (hle : prize ≤ usdc.balanceOf C.self) : ∃ usdc', payAlpha C usdc dev prize = .ok usdc' := by
  unfold payAlpha
  split
  · rename_i h
    exact Token.safeTransfer_succeeds hself h.2 hle
  · exact ⟨_, rfl⟩

theorem payShield_succeeds {usdc : Token} {prize : ℕ} (alphaDev shieldDev : Address)
    (hself : C.self ≠ 0) (hle : prize ≤ usdc.balanceOf C.self) :
    ∃ usdc', payShield C usdc alphaDev shieldDev prize = .ok usdc' := by
  unfold payShield
  split
  · split
    · rename_i h
      exact Token.safeTransfer_succeeds hself h hle
    · split
      · rename_i h
        exact Token.safeTransfer_succeeds hself h hle
      · exact ⟨_, rfl⟩
  · exact ⟨_, rfl⟩

/-- The prize pool and the two stakes of a duel are part of what the contract holds. -/
theorem Solvent.duel_le (hs : Solvent C s) (hex : (s.duels id).status ≠ .none) :
    s.prizePool id + (s.agents (s.duels id).agentA).stake + (s.agents (s.duels id).agentB).stake ≤
      s.usdc.balanceOf C.self := by
  have hprize : s.prizePool id ≤ s.prizes := Mapping.le_sum (hs.wf.mem_duels hex)
  have hstakes : (s.agents (s.duels id).agentA).stake + (s.agents (s.duels id).agentB).stake ≤
      s.lockedStakes :=
    Mapping.add_le_sum (f := fun a => (s.agents a).stake) (Finset.mem_univ _) (Finset.mem_univ _)
      (hs.wf.sides id hex)
  rw [hs.balance, State.liabilities]
  omega

/-- A live duel that is over can be resolved by anybody. -/
theorem resolve_succeeds (hs : Solvent C s) (hlive : (s.duels id).status = .live)
    (htime : (s.duels id).endsAt ≤ m.timestamp)
    (hsurv : ∀ a, s.survivedInjections a * 10000 < 2 ^ 256) :
    ∃ s', resolve C s m id = .ok s' := by
  have hex : (s.duels id).status ≠ .none := by simp [hlive]
  have hp := hs.wf.payable hex
  have hself := hs.wf.self_ne
  have hle := hs.duel_le hex
  have hmax := s.usdc.balanceOf_lt C.self
  obtain ⟨shield, hshield⟩ := ironShieldWinner_succeeds (s := s) (d := s.duels id) hsurv
  -- the stakes are closed out one after the other
  let s₁ : State := { s with
    duels := Function.update s.duels id
      { s.duels id with status := .resolved, winner := (s.duels id).alpha, shieldWinner := shield }
    prizePool := Function.update s.prizePool id 0 }
  obtain ⟨s₂, forfeitA, hA⟩ := closeOutStake_succeeds (s := s₁) (s.duels id).agentA
    hself hp.devA_ne (by dsimp only [s₁]; omega)
  obtain ⟨uA, refundA, hsA, hsumA, rfl⟩ := closeOutStake_ok hp.devA_self hA
  have hbA := hsA.balance
  dsimp only [s₁] at hsumA hbA
  obtain ⟨s₃, forfeitB, hB⟩ := closeOutStake_succeeds (s := { s₁ with
      usdc := uA
      agents := Function.update s₁.agents (s.duels id).agentA
        (s₁.agents (s.duels id).agentA).closed }) (s.duels id).agentB
    hself hp.devB_ne (by
      simp only [s₁, Function.update_of_ne hp.agents_ne.symm]
      omega)
  obtain ⟨uB, refundB, hsB, hsumB, rfl⟩ := closeOutStake_ok hp.devB_self hB
  have hbB := hsB.balance
  simp only [s₁, Function.update_of_ne hp.agents_ne.symm] at hsumB hbB
  -- what is left covers the prizes
  generalize hpool : s.prizePool id + forfeitA + forfeitB = pool at *
  generalize halpha : (if (s.duels id).alpha = (s.duels id).agentA
    then (s.agents (s.duels id).agentA).developer
    else (s.agents (s.duels id).agentB).developer) = alphaDev
  have hdev := hp.alphaDev (s.duels id).alpha
  rw [halpha] at hdev
  have hhalf : pool / 2 ≤ uB.balanceOf C.self := by omega
  obtain ⟨u₁, hα⟩ := payAlpha_succeeds alphaDev hself hhalf
  have hb₁ := (payAlpha_ok hdev.1 hdev.2 hα).balance
  have hrest : pool - pool / 2 ≤ u₁.balanceOf C.self := by omega
  obtain ⟨u₂, hσ⟩ := payShield_succeeds alphaDev
    (if shield = (s.duels id).agentA then (s.agents (s.duels id).agentA).developer
      else if shield = (s.duels id).agentB then (s.agents (s.duels id).agentB).developer else 0)
    hself hrest
  subst hpool halpha
  simp only [resolve, bind_ok, revertIf_ok, existingDuel_ok, U256.add_ok, U256.sub_ok, pure_ok,
    Prod.exists]
  exact ⟨_, _, ⟨rfl, hex⟩, (), by simp [hlive], (), by omega, shield, hshield, _, forfeitA, hA, _,
    ⟨by omega, rfl⟩, _, forfeitB, hB, _, ⟨by omega, rfl⟩, _, ⟨by omega, rfl⟩, u₁, hα, u₂, hσ, rfl⟩

end Resolve

/-! ## Along a run -/

section Runs

variable {C : Config} {s₀ s s' : State} {e : Event} {tr : List (Trace.Step State Event)}

theorem Effect.survived_le (he : Effect C s e s') (a : Address) :
    s'.survivedInjections a ≤ s.survivedInjections a + 1 := by
  cases he with
  | report x agent i rBps ing surv failed scoreA scoreB ingested survived failures s' _ _ _ hsurv
      hs =>
    have : s'.survivedInjections = survived := by cases hs <;> rfl
    rw [this]
    exact hsurv a
  | _ => exact Nat.le_succ _

/-- Every call adds at most one survived injection. -/
theorem Run.survived_le (h₀ : Deployed C s₀) (h : Run C s₀ tr s) (a : Address) :
    s.survivedInjections a ≤ tr.length := by
  refine h.history (P := fun tr s => s.survivedInjections a ≤ tr.length) ?_
    fun tr s e s' hr ih hst => ?_
  · rw [h₀.eq_initial]
    exact le_rfl
  · have := (hst.effect (Run.wellFormed h₀ hr)).survived_le a
    rw [List.length_append, List.length_singleton]
    omega

/-- A live duel's pools are part of what the contract holds. -/
theorem Solvent.pools_le {id : ℕ} (hs : Solvent C s) (hl : (s.duels id).status = .live) :
    (s.duels id).poolA + (s.duels id).poolB ≤ s.usdc.totalSupply := by
  have hpot : s.outstanding id ≤ s.pots :=
    Mapping.le_sum (hs.wf.mem_duels (Status.exists_of_live hl))
  have hout : s.outstanding id = (s.duels id).poolA + (s.duels id).poolB := by
    rw [State.outstanding, hl]
  have hbal := s.usdc.balanceOf_le C.self
  rw [hs.balance, State.liabilities] at hbal
  omega

/-- The pools of every duel stay below a bound on USDC's supply. -/
theorem Run.pools_lt (h₀ : Deployed C s₀) (h : Run C s₀ tr s) {N : ℕ}
    (hN : ∀ st ∈ tr, st.post.usdc.totalSupply < N) (hpos : 0 < N) (id : ℕ) :
    (s.duels id).poolA + (s.duels id).poolB < N := by
  refine h.history (P := fun tr s => (∀ st ∈ tr, st.post.usdc.totalSupply < N) →
    (s.duels id).poolA + (s.duels id).poolB < N) (fun _ => ?_) (fun tr s e s' hr ih hst hN => ?_) hN
  · rw [h₀.eq_initial]
    exact hpos
  · have ih := ih fun st hm => hN st (List.mem_append_left _ hm)
    have hs := Run.solvent h₀ hr
    by_cases hl : (s'.duels id).status = .live
    · have := ((hs.step hst).pools_le hl).trans_lt (hN ⟨s, e, s'⟩ (by simp))
      exact this
    · -- only a bet changes the pools, and it needs a live duel
      have hd := (hst.effect hs.wf).duel hs.wf id
      generalize s'.duels id = d at hd hl ⊢
      cases hd with
      | same => exact ih
      | created => exact hpos
      | scored | resolved => exact ih
      | bet _ _ _ _ _ hlive => exact absurd hlive hl

/-- A duel stays resolved. -/
theorem Run.resolved (h₀ : Deployed C s₀) (h : Run C s₀ tr s) (id : ℕ)
    (hr : ∃ st ∈ tr, st.ev.call = .resolve id) : (s.duels id).status = .resolved := by
  refine h.history (P := fun tr s => (∃ st ∈ tr, st.ev.call = .resolve id) →
    (s.duels id).status = .resolved) (fun hr => by simp at hr) ?_ hr
  intro tr s e s' hrun ih hst hr
  have hwf := Run.wellFormed h₀ hrun
  have he := hst.effect hwf
  obtain ⟨st, hm, hc⟩ := hr
  rcases List.mem_append.mp hm with hm | hm
  · have hres := ih ⟨st, hm, hc⟩
    rw [(he.duel hwf id).of_resolved hwf hres]
    exact hres
  · obtain rfl : st = ⟨s, e, s'⟩ := by simpa using hm
    exact (he.resolves hc).1

/-- No live duel that is over gets stuck: anybody can resolve it, which pays out exactly its prize
pool and the stakes of its agents; and after a resolution every claim of an account with an
unclaimed stake on the winning side, or a refund, goes through. -/
theorem no_stuck_duel (h₀ : Deployed C s₀) (h : Run C s₀ tr s)
    (hsupply : ∀ st ∈ tr, st.post.usdc.totalSupply < 2 ^ 128) (hcalls : tr.length < 2 ^ 128)
    (id : ℕ) :
    (∀ m : Msg, (s.duels id).status = .live → (s.duels id).endsAt ≤ m.timestamp →
      ∃ s', resolve C s m id = .ok s' ∧ (s'.duels id).status = .resolved ∧
        s'.usdc.balanceOf C.self + (s.prizePool id + (s.agents (s.duels id).agentA).stake +
          (s.agents (s.duels id).agentB).stake) = s.usdc.balanceOf C.self) ∧
    ((∃ st ∈ tr, st.ev.call = .resolve id) → (s.duels id).status = .resolved ∧
      ∀ m : Msg, s.claimed id m.sender = false →
        (if (s.duels id).winningPool = 0 then s.betOf id true m.sender + s.betOf id false m.sender
          else s.betOf id (s.duels id).winnerIsA m.sender) ≠ 0 →
        ∃ s' p, claim C s m id = .ok (s', p) ∧ 0 < p) := by
  have hs := Run.solvent h₀ h
  refine ⟨fun m hlive htime => ?_, fun hr => ?_⟩
  · have hsurv : ∀ a, s.survivedInjections a * 10000 < 2 ^ 256 := by
      intro a
      have := Run.survived_le h₀ h a
      omega
    obtain ⟨s', hres⟩ := resolve_succeeds hs hlive htime hsurv
    have hp := hs.wf.payable (Status.exists_of_live hlive)
    obtain ⟨-, -, usdc, shield, -, hu, rfl⟩ := resolve_ok hs.wf.self_ne hp hres
    exact ⟨_, hres, by simp, hu.balance⟩
  · have hres := Run.resolved h₀ h id hr
    refine ⟨hres, fun m hcl hz => ?_⟩
    obtain ⟨b, hrep, hset⟩ := Run.settled h₀ h id
    have hW : (s.duels id).winningPool = b.pool (s.duels id).winnerIsA := hrep.pool _
    have hn : m.sender ∉ b.claimed := by simp [hrep.claimed, hcl]
    have hent : b.Entitled (s.duels id).winnerIsA m.sender := by
      rw [Parimutuel.Book.entitled_iff, Parimutuel.Book.both, hrep.stake, ← hW]
      exact hz
    have hT := Run.pools_lt h₀ h hsupply (by decide) id
    rw [hrep.total] at hT
    have hstake := (Run.betOf_le h₀ h id (s.duels id).winnerIsA m.sender).trans
      ((hrep.pool _).trans_le (b.pool_le_total _))
    have hfit : s.betOf id (s.duels id).winnerIsA m.sender * b.total < 2 ^ 256 := calc
      _ < 2 ^ 128 * 2 ^ 128 := Nat.mul_lt_mul'' (hstake.trans_lt hT) hT
      _ = 2 ^ 256 := by decide
    obtain ⟨s', hc⟩ := claim_succeeds hs hrep hres hn hent (by omega) hfit
    exact ⟨s', _, hc, Parimutuel.Book.payout_pos hent hn⟩

end Runs

namespace Demo

/-- After its trading, a bettor resolves the duel of `Demo.duel`. -/
theorem duel_resolves : ∃ tr s, Run config start tr s ∧
    ∃ s', resolve config s (.of 0xE1 22) 1 = .ok s' ∧
      s'.usdc.balanceOf config.self + 100000007 = s.usdc.balanceOf config.self := by
  have h : (play config start duel).map (fun r => (r.1.length,
      r.1.all fun st => decide (st.post.usdc.totalSupply < 2 ^ 128), (r.2.duels 1).status,
      (r.2.duels 1).endsAt, r.2.prizePool 1 + (r.2.agents (r.2.duels 1).agentA).stake +
        (r.2.agents (r.2.duels 1).agentB).stake)) =
      some (15, true, .live, 22, 100000007) := by decide +kernel
  obtain ⟨r, hr, hv⟩ := Option.map_eq_some_iff.mp h
  simp only [Prod.mk.injEq, List.all_eq_true, decide_eq_true_eq] at hv
  obtain ⟨hlen, hsupply, hlive, hend, hmoney⟩ := hv
  have hrun := Run.of_play hr
  have hstuck := no_stuck_duel deployed hrun hsupply (by omega) 1
  obtain ⟨s', hres, -, hbal⟩ := hstuck.1 (.of 0xE1 22) hlive (by rw [hend]; decide)
  rw [hmoney] at hbal
  exact ⟨r.1, r.2, hrun, s', hres, hbal⟩

end Demo

end Colosseum
end Arcane
