import Arcane.Colosseum.WellFormed

/-!
# What one call does to one duel, one agent or one injection

`Effect` describes a call by the whole state it writes. Here the same call is seen from a single
entry of the storage: `DuelEffect`, `AgentEffect` and `EscrowEffect` list what can become of one
duel, one agent's registration and one injection's escrow, and by which call.
-/

namespace Arcane
namespace Colosseum

open Evm

/-! ## Duels -/

/-- What the call `e` makes of duel `id`. -/
inductive DuelEffect (s : State) (e : Event) (id : ℕ) : Duel → Prop
  | same : DuelEffect s e id (s.duels id)
  | created (agentA agentB : Address) (bettingSecs tradingSecs : ℕ) :
      e.call = .createDuel agentA agentB bettingSecs tradingSecs → e.ret = id →
      id = s.duelCount + 1 → (s.agents agentA).registered = true →
      (s.agents agentB).registered = true →
      DuelEffect s e id { Duel.empty with
        agentA, agentB
        startAt := e.msg.timestamp
        tradingStartsAt := e.msg.timestamp + bettingSecs
        endsAt := e.msg.timestamp + bettingSecs + tradingSecs
        status := .live }
  | scored (agent : Address) (i : ℕ) (rBps : ℤ) (ing surv failed : Bool) (scoreA scoreB : ℤ) :
      e.call = .reportCall id agent i rBps ing surv failed → (s.duels id).status = .live →
      (s.duels id).HasAgent agent → DuelEffect s e id { s.duels id with scoreA, scoreB }
  | bet (onA : Bool) (amount poolA poolB : ℕ) :
      e.call = .bet id onA amount → (s.duels id).status = .live →
      e.msg.timestamp < (s.duels id).tradingStartsAt →
      DuelEffect s e id { s.duels id with poolA, poolB }
  | resolved (shieldWinner : Address) :
      e.call = .resolve id → (s.duels id).status = .live →
      (s.duels id).endsAt ≤ e.msg.timestamp →
      DuelEffect s e id
        { s.duels id with status := .resolved, winner := (s.duels id).alpha, shieldWinner }

section Duels

variable {C : Config} {s s' : State} {e : Event}

theorem Settled.duels {id i : ℕ} {agent : Address} {surv : Bool}
    (h : Settled C s id agent i surv s') : s'.duels = s.duels := by
  cases h <;> rfl

theorem Effect.duel (hwf : WellFormed C s) (he : Effect C s e s') (id : ℕ) :
    DuelEffect s e id (s'.duels id) := by
  cases he with
  | register | inject | fund | claim | params | token => exact .same
  | create agentA agentB bettingSecs tradingSecs hc _ hA hB hret =>
    refine (Function.forall_update_iff _ (DuelEffect s e)).mpr ⟨?_, fun _ _ => .same⟩ id
    rw [(hwf.blank _ hwf.next_blank).1]
    exact .created agentA agentB bettingSecs tradingSecs hc hret rfl hA hB
  | report x agent i rBps ing surv failed scoreA scoreB ingested survived failures s' hc hlive
      hside _ hs =>
    rw [hs.duels, State.scored]
    refine (Function.forall_update_iff _ (DuelEffect s e)).mpr ⟨?_, fun _ _ => .same⟩ id
    exact .scored agent i rBps ing surv failed scoreA scoreB hc hlive hside
  | resolve x usdc shieldWinner hc hlive htime _ _ =>
    refine (Function.forall_update_iff _ (DuelEffect s e)).mpr ⟨?_, fun _ _ => .same⟩ id
    exact .resolved shieldWinner hc hlive htime
  | bet x onA amount usdc hc hlive htime _ _ =>
    refine (Function.forall_update_iff _ (DuelEffect s e)).mpr ⟨?_, fun _ _ => .same⟩ id
    cases onA <;> exact .bet _ amount _ _ hc hlive htime

/-- An accepted `resolve` resolves the duel. -/
theorem Effect.resolves {id : ℕ} (he : Effect C s e s') (hc : e.call = .resolve id) :
    (s'.duels id).status = .resolved ∧ s'.prizePool id = 0 ∧
      s'.injectionEscrows = s.injectionEscrows ∧ ∀ x, x ≠ id → s'.duels x = s.duels x := by
  cases he with
  | resolve x _ _ hc' =>
    obtain rfl : x = id := by simpa [hc'] using hc
    simp +contextual
  | _ => simp_all [Call.setter]

/-- A resolved duel is never written again. -/
theorem DuelEffect.of_resolved {id : ℕ} {d : Duel} (hwf : WellFormed C s)
    (h : DuelEffect s e id d) (hr : (s.duels id).status = .resolved) : d = s.duels id := by
  cases h with
  | same => rfl
  | created _ _ _ _ _ _ hid =>
    subst hid
    rw [hwf.next_blank] at hr
    cases hr
  | scored _ _ _ _ _ _ _ _ _ hl | bet _ _ _ _ _ hl | resolved _ _ hl => simp [hr] at hl

/-- A duel that exists keeps its agents and its schedule. -/
theorem DuelEffect.schedule {id : ℕ} {d : Duel} (hwf : WellFormed C s)
    (h : DuelEffect s e id d) (hex : (s.duels id).status ≠ .none) :
    d.agentA = (s.duels id).agentA ∧ d.agentB = (s.duels id).agentB ∧
      d.tradingStartsAt = (s.duels id).tradingStartsAt ∧ d.endsAt = (s.duels id).endsAt := by
  cases h with
  | same | scored | bet | resolved => exact ⟨rfl, rfl, rfl, rfl⟩
  | created _ _ _ _ _ _ hid => exact absurd hid (hwf.next_ne hex)

/-- A duel that becomes live was created by this call. -/
theorem DuelEffect.live {id : ℕ} {d : Duel} (h : DuelEffect s e id d) (hl : d.status = .live) :
    (s.duels id).status = .live ∨ ∃ agentA agentB bettingSecs tradingSecs,
      e.call = .createDuel agentA agentB bettingSecs tradingSecs ∧ e.ret = id := by
  cases h with
  | same => exact .inl hl
  | created agentA agentB bettingSecs tradingSecs hc hret =>
    exact .inr ⟨agentA, agentB, bettingSecs, tradingSecs, hc, hret⟩
  | scored _ _ _ _ _ _ _ _ _ h | bet _ _ _ _ _ h | resolved _ _ h => exact .inl h

end Duels

/-! ## Agents -/

/-- What the call `e` makes of the registration of agent `a`. -/
inductive AgentEffect (s : State) (e : Event) (a : Address) : AgentInfo → Prop
  | same (failures : ℕ) : AgentEffect s e a { s.agents a with failures }
  | registered : e.call = .registerAgent a → (s.agents a).registered = false →
      AgentEffect s e a ⟨e.msg.sender, s.stakeRequirement, 0, true⟩
  | closed (id : ℕ) : e.call = .resolve id → (s.duels id).status = .live →
      (s.duels id).HasAgent a → AgentEffect s e a (s.agents a).closed

section Agents

variable {C : Config} {s s' : State} {e : Event}

theorem Settled.agents {id i : ℕ} {agent : Address} {surv : Bool}
    (h : Settled C s id agent i surv s') : s'.agents = s.agents := by
  cases h <;> rfl

theorem Effect.agent (he : Effect C s e s') (a : Address) :
    AgentEffect s e a (s'.agents a) := by
  cases he with
  | create | bet | inject | fund | claim | params | token => exact .same (s.agents a).failures
  | register agent usdc hc _ hreg _ =>
    refine (Function.forall_update_iff _ (AgentEffect s e)).mpr ⟨?_, fun x _ => .same _⟩ a
    exact .registered hc hreg
  | report x agent i rBps ing surv failed scoreA scoreB ingested survived failures s' _ _ _ _ hs =>
    rw [hs.agents, State.scored]
    refine (Function.forall_update_iff _ (AgentEffect s e)).mpr ⟨?_, fun x _ => .same _⟩ a
    exact .same failures
  | resolve id usdc shieldWinner hc hlive _ _ _ =>
    refine (Function.forall_update_iff _ (AgentEffect s e)).mpr ⟨?_, fun x _ => ?_⟩ a
    · exact .closed id hc hlive (.inr rfl)
    · refine (Function.forall_update_iff _ (AgentEffect s e)).mpr ⟨?_, fun y _ => .same _⟩ x
      exact .closed id hc hlive (.inl rfl)

end Agents

/-! ## Injections -/

/-- The escrow of injection `i` went to the developer of `agent`, or into the prize pool of duel
`id`, and no other prize pool changed. -/
def Paid (C : Config) (s s' : State) (id : ℕ) (agent : Address) (i : ℕ) : Prop :=
  (∀ x, x ≠ id → s'.prizePool x = s.prizePool x) ∧
    ((s'.prizePool id = s.prizePool id ∧
        Token.Moved s.usdc s'.usdc C.self (s.agents agent).developer (s.injectionEscrows i)) ∨
      (s'.usdc = s.usdc ∧ s'.prizePool id = s.prizePool id + s.injectionEscrows i))

/-- What the call `e` makes of injection `i`. -/
inductive EscrowEffect (C : Config) (s : State) (e : Event) (s' : State) (i : ℕ) : Prop
  | same : s'.injectionEscrows i = s.injectionEscrows i →
      s'.injectionTarget i = s.injectionTarget i →
      (∀ id agent rBps ing surv failed, e.call = .reportCall id agent i rBps ing surv failed →
        s.injectionEscrows i = 0) →
      EscrowEffect C s e s' i
  | created (id : ℕ) (target : Address) (itemKind : ℕ) :
      e.call = .injectChaos id target itemKind → e.ret = i → i = s.injectionCount + 1 →
      (s.duels id).status = .live → s.injectionEscrows i = 0 → s'.injectionTarget i = target →
      EscrowEffect C s e s' i
  | settled (id : ℕ) (agent : Address) (rBps : ℤ) (ing surv failed : Bool) :
      e.call = .reportCall id agent i rBps ing surv failed → (s.duels id).status = .live →
      (s.duels id).HasAgent agent → s.injectionEscrows i ≠ 0 → s.injectionTarget i = agent →
      s'.injectionEscrows i = 0 → s'.injectionTarget i = agent → Paid C s s' id agent i →
      EscrowEffect C s e s' i

section Injections

variable {C : Config} {s s' : State} {e : Event}

/-- A settlement writes no escrow but the one of the reported injection, no target, and no id. -/
theorem Settled.escrow {id i k : ℕ} {agent : Address} {surv : Bool}
    (h : Settled C s id agent i surv s') (hk : k ≠ i) :
    s'.injectionEscrows k = s.injectionEscrows k := by
  cases h with
  | idle => rfl
  | bounty | pooled => exact Function.update_of_ne hk _ _

theorem Settled.target {id i : ℕ} {agent : Address} {surv : Bool}
    (h : Settled C s id agent i surv s') :
    s'.injectionTarget = s.injectionTarget ∧ s'.injectionCount = s.injectionCount := by
  cases h <;> exact ⟨rfl, rfl⟩

/-- A positive escrow of the reported injection is paid out. -/
theorem Settled.paid {id i : ℕ} {agent : Address} {surv : Bool} (hwf : WellFormed C s)
    (h : Settled C s id agent i surv s') (hne : s.injectionEscrows i ≠ 0) :
    s.injectionTarget i = agent ∧ s'.injectionEscrows i = 0 ∧ Paid C s s' id agent i := by
  cases h with
  | idle h0 =>
    rcases h0 with rfl | h0
    · exact absurd (hwf.escrows 0 (.inl rfl)) hne
    · exact absurd h0 hne
  | bounty usdc _ _ htarget _ _ hu =>
    exact ⟨htarget, Function.update_self _ _ _, fun _ _ => rfl, .inl ⟨rfl, hu⟩⟩
  | pooled _ _ htarget _ =>
    exact ⟨htarget, Function.update_self _ _ _, fun x hx => Function.update_of_ne hx _ _,
      .inr ⟨rfl, Function.update_self _ _ _⟩⟩

theorem Effect.escrow (hwf : WellFormed C s) (he : Effect C s e s') (i : ℕ) :
    EscrowEffect C s e s' i := by
  cases he with
  | register _ _ hc | create _ _ _ _ hc | resolve _ _ _ hc | bet _ _ _ _ hc | fund _ _ _ hc
  | claim _ _ _ _ hc | token _ _ hc => exact .same rfl rfl fun _ _ _ _ _ _ h => by simp [hc] at h
  | params _ _ _ _ _ _ hc =>
    exact .same rfl rfl fun _ _ _ _ _ _ h => by simp [h, Call.setter] at hc
  | inject id target itemKind escrow usdc hc hlive _ _ _ hret =>
    by_cases hi : i = s.injectionCount + 1
    · subst hi
      exact .created id target itemKind hc hret rfl hlive (hwf.escrows _ (.inr (by omega)))
        (Function.update_self _ _ _)
    · exact .same (Function.update_of_ne hi _ _) (Function.update_of_ne hi _ _)
        fun _ _ _ _ _ _ h => by simp [hc] at h
  | report id agent k rBps ing surv failed scoreA scoreB ingested survived failures s' hc hlive
      hside _ hs =>
    have hkeep := hs.target.1
    by_cases hi : i = k
    · subst hi
      by_cases hne : s.injectionEscrows i = 0
      · refine .same ?_ (by rw [hkeep]; rfl) fun _ _ _ _ _ _ _ => hne
        cases hs with
        | idle => rfl
        | bounty _ _ h | pooled _ h => exact absurd hne h
      · have hwf' : WellFormed C (s.scored id agent scoreA scoreB ingested survived failures) :=
          hwf.scored hlive
        obtain ⟨htarget, hzero, hother, hpaid⟩ := hs.paid hwf' hne
        have hdev : ((s.scored id agent scoreA scoreB ingested survived failures).agents
            agent).developer = (s.agents agent).developer := by simp [State.scored]
        rw [hdev] at hpaid
        exact .settled id agent rBps ing surv failed hc hlive hside hne htarget hzero
          (by rw [hkeep]; exact htarget) ⟨hother, hpaid⟩
    · refine .same (hs.escrow hi) (by rw [hkeep]; rfl) ?_
      intro _ _ _ _ _ _ h
      rw [hc] at h
      cases h
      exact absurd rfl hi

end Injections

/-! ## Prize pools -/

/-- What the call `e` makes of the prize pool of duel `id`. -/
inductive PrizeEffect (s : State) (e : Event) (id : ℕ) : ℕ → Prop
  | same : PrizeEffect s e id (s.prizePool id)
  | funded (amount : ℕ) : e.call = .fundPrizePool id amount →
      PrizeEffect s e id (s.prizePool id + amount)
  | pooled (agent : Address) (i : ℕ) (rBps : ℤ) (ing surv failed : Bool) :
      e.call = .reportCall id agent i rBps ing surv failed → (s.duels id).status = .live →
      PrizeEffect s e id (s.prizePool id + s.injectionEscrows i)
  | emptied : e.call = .resolve id → (s.duels id).status = .live → PrizeEffect s e id 0

section Prizes

variable {C : Config} {s s' : State} {e : Event}

theorem Effect.prize (he : Effect C s e s') (id : ℕ) : PrizeEffect s e id (s'.prizePool id) := by
  cases he with
  | register | create | bet | inject | claim | params | token => exact .same
  | report x agent i rBps ing surv failed scoreA scoreB ingested survived failures s' hc hlive _ _
      hs =>
    cases hs with
    | idle | bounty => exact .same
    | pooled =>
      refine (Function.forall_update_iff _ (PrizeEffect s e)).mpr ⟨?_, fun _ _ => .same⟩ id
      exact .pooled agent i rBps ing surv failed hc hlive
  | resolve x usdc shieldWinner hc hlive _ _ _ =>
    refine (Function.forall_update_iff _ (PrizeEffect s e)).mpr ⟨?_, fun _ _ => .same⟩ id
    exact .emptied hc hlive
  | fund x amount usdc hc hex _ _ =>
    refine (Function.forall_update_iff _ (PrizeEffect s e)).mpr ⟨?_, fun _ _ => .same⟩ id
    exact .funded amount hc

/-- An accepted funding reaches the prize pool. -/
theorem Effect.funds {id amount : ℕ} (he : Effect C s e s')
    (hc : e.call = .fundPrizePool id amount) :
    (s.duels id).status ≠ .none ∧ 0 < amount ∧
      s'.prizePool id = s.prizePool id + amount ∧ s'.duels = s.duels := by
  cases he with
  | fund _ _ _ hc' hex hpos =>
    rw [hc] at hc'
    cases hc'
    exact ⟨hex, hpos, Function.update_self _ _ _, rfl⟩
  | _ => simp_all [Call.setter]

end Prizes

end Colosseum
end Arcane
