import Arcane.Colosseum.Effect

/-!
# The shape of a reachable Colosseum state

`WellFormed` is what holds of the storage apart from the money: the ids in use are the ones
counted, a registered agent has a developer that can be paid, an unregistered one has no stake,
and a duel has two agents. Every step keeps it (`WellFormed.step`), and under it every accepted
call has its `Effect` (`Step.effect`).
-/

namespace Arcane
namespace Colosseum

open Evm

/-- A registered agent has a developer, an unregistered one has no stake, and the contract is no
developer. -/
structure AgentInfo.Ok (C : Config) (info : AgentInfo) : Prop where
  developer : info.developer ≠ C.self
  registered : info.registered = true → info.developer ≠ 0
  unregistered : info.registered = false → info.stake = 0

/-- `a` fights in the duel. -/
def Duel.HasAgent (d : Duel) (a : Address) : Prop := a = d.agentA ∨ a = d.agentB

instance (d : Duel) (a : Address) : Decidable (d.HasAgent a) := inferInstanceAs (Decidable (_ ∨ _))

theorem Status.exists_of_live {x : Status} (h : x = .live) : x ≠ .none := by simp [h]

theorem Status.exists_of_resolved {x : Status} (h : x = .resolved) : x ≠ .none := by simp [h]

structure WellFormed (C : Config) (s : State) : Prop where
  self_ne : C.self ≠ 0
  treasury : s.treasury ≠ C.self
  reserved : s.usdc.Reserved C.self
  info : ∀ a, (s.agents a).Ok C
  counted : ∀ id, (s.duels id).status ≠ .none ↔ 1 ≤ id ∧ id ≤ s.duelCount
  blank : ∀ id, (s.duels id).status = .none → s.duels id = Duel.empty ∧ s.prizePool id = 0
  sides : ∀ id, (s.duels id).status ≠ .none → (s.duels id).agentA ≠ (s.duels id).agentB
  developers : ∀ id a, (s.duels id).status ≠ .none → (s.duels id).HasAgent a →
    (s.agents a).developer ≠ 0
  escrows : ∀ i, i = 0 ∨ s.injectionCount < i → s.injectionEscrows i = 0

namespace WellFormed

variable {C : Config} {s s' : State} {id : ℕ}

theorem payable (h : WellFormed C s) (hex : (s.duels id).status ≠ .none) :
    s.Payable C (s.duels id) where
  agents_ne := h.sides id hex
  devA_ne := h.developers id _ hex (.inl rfl)
  devB_ne := h.developers id _ hex (.inr rfl)
  devA_self := (h.info _).developer
  devB_self := (h.info _).developer

/-- The next duel id was never used. -/
theorem next_blank (h : WellFormed C s) : (s.duels (s.duelCount + 1)).status = .none := by
  by_contra hne
  have := (h.counted _).mp hne
  omega

theorem next_ne (h : WellFormed C s) (hex : (s.duels id).status ≠ .none) :
    id ≠ s.duelCount + 1 := by
  rintro rfl
  exact hex h.next_blank

end WellFormed

theorem Deployed.eq_initial {C : Config} {s : State} (h : Deployed C s) :
    s = .initial s.usdc s.treasury := by
  have hd := h.deploy
  simp only [Colosseum.deploy, bind_ok, require_ok, pure_ok] at hd
  obtain ⟨_, -, _, -, _, -, hs⟩ := hd
  exact hs.symm

/-- Every accepted call has one of the listed effects. -/
theorem Step.effect {C : Config} {s s' : State} {e : Event} (hwf : WellFormed C s)
    (h : Step C s e s') : Effect C s e s' := by
  obtain ⟨m, call, ret⟩ := e
  obtain ⟨⟨hm, hlegal⟩, h⟩ := h
  dsimp only at hm hlegal h
  cases call with
  | registerAgent agent => exact registerAgent_effect hm (void_ok.mp h).1
  | createDuel agentA agentB bettingSecs tradingSecs => exact createDuel_effect h
  | reportCall id agent i rBps ing surv failed => exact reportCall_effect (void_ok.mp h).1
  | resolve id => exact resolve_effect hwf.self_ne hwf.payable (void_ok.mp h).1
  | bet id onA amount => exact bet_effect hm (void_ok.mp h).1
  | injectChaos id target itemKind => exact injectChaos_effect hm hwf.treasury h
  | fundPrizePool id amount => exact fundPrizePool_effect hm (void_ok.mp h).1
  | claim id => exact claim_effect h
  | setTreasury newTreasury =>
    have h := (void_ok.mp h).1
    simp only [setTreasury, bind_ok, revertIf_ok, require_ok, pure_ok] at h
    obtain ⟨_, -, _, -, rfl⟩ := h
    exact .params _ _ _ _ _ _ rfl (.inl hlegal)
  | setItemPrice | setOperatorCutBps | setFailureThreshold =>
    -- the setters that check their argument
    have h := (void_ok.mp h).1
    simp only [setItemPrice, setOperatorCutBps, setFailureThreshold, bind_ok, revertIf_ok,
      pure_ok] at h
    obtain ⟨_, -, _, -, rfl⟩ := h
    exact .params _ _ _ _ _ _ rfl (.inr rfl)
  | setStakeRequirement | setShieldMinScore =>
    have h := (void_ok.mp h).1
    simp only [setStakeRequirement, setShieldMinScore, bind_ok, revertIf_ok, pure_ok] at h
    obtain ⟨_, -, rfl⟩ := h
    exact .params _ _ _ _ _ _ rfl (.inr rfl)
  | usdc op =>
    have h := (void_ok.mp h).1
    simp only [bind_ok, external_ok, pure_ok] at h
    obtain ⟨usdc, hu, rfl⟩ := h
    exact .token op usdc rfl hlegal hu

/-! ## The invariant is kept -/

/-- A write to a duel that keeps its agents, and writes only where a duel is. -/
structure Duel.Keeps (d d' : Duel) : Prop where
  exists_iff : d'.status = .none ↔ d.status = .none
  agentA : d'.agentA = d.agentA
  agentB : d'.agentB = d.agentB
  blank : d.status = .none → d' = d

theorem Duel.Keeps.refl (d : Duel) : d.Keeps d := ⟨Iff.rfl, rfl, rfl, fun _ => rfl⟩

theorem Duel.Keeps.of_live {d d' : Duel} (h : d.status = .live) (hs : d'.status ≠ .none)
    (hA : d'.agentA = d.agentA) (hB : d'.agentB = d.agentB) : d.Keeps d' :=
  ⟨iff_of_false hs (by simp [h]), hA, hB, fun hn => by simp [h] at hn⟩

theorem Duel.Keeps.update {f : ℕ → Duel} {id : ℕ} {d : Duel} (h : (f id).Keeps d) (x : ℕ) :
    (f x).Keeps (Function.update f id d x) := by
  apply (Function.forall_update_iff f fun y d' => (f y).Keeps d').mpr
  exact ⟨h, fun y _ => .refl (f y)⟩

theorem AgentInfo.Ok.update {C : Config} {f : Address → AgentInfo} {a : Address} {info : AgentInfo}
    (hf : ∀ x, (f x).Ok C) (h : info.Ok C) (x : Address) : (Function.update f a info x).Ok C := by
  apply (Function.forall_update_iff f fun _ i => i.Ok C).mpr
  exact ⟨h, fun y _ => hf y⟩

theorem AgentInfo.Ok.closed {C : Config} {info : AgentInfo} (h : info.Ok C) : info.closed.Ok C :=
  ⟨h.developer, fun hr => by simp [AgentInfo.closed] at hr, fun _ => rfl⟩

/-- A write to an agent that keeps it with a developer. -/
theorem developer_update {f : Address → AgentInfo} {a : Address} {info : AgentInfo} {x : Address}
    (h : (f a).developer ≠ 0 → info.developer ≠ 0) (hx : (f x).developer ≠ 0) :
    (Function.update f a info x).developer ≠ 0 := by
  by_cases hxa : x = a
  · subst hxa
    rw [Function.update_self]
    exact h hx
  · rwa [Function.update_of_ne hxa]

namespace WellFormed

variable {C : Config} {s s' : State} {e : Event}

/-- The parts about duels survive writes that keep the duels and their developers. -/
theorem keep (h : WellFormed C s) (hc : s'.duelCount = s.duelCount)
    (hd : ∀ id, (s.duels id).Keeps (s'.duels id))
    (hp : ∀ id, (s.duels id).status = .none → s'.prizePool id = s.prizePool id)
    (hdev : ∀ a, (s.agents a).developer ≠ 0 → (s'.agents a).developer ≠ 0)
    (htr : s'.treasury ≠ C.self) (hr : s'.usdc.Reserved C.self) (hinfo : ∀ a, (s'.agents a).Ok C)
    (hesc : ∀ i, i = 0 ∨ s'.injectionCount < i → s'.injectionEscrows i = 0) : WellFormed C s' where
  self_ne := h.self_ne
  treasury := htr
  reserved := hr
  info := hinfo
  counted id := by rw [hc, ← h.counted, not_iff_not]; exact (hd id).exists_iff
  blank id hn := by
    have hn := (hd id).exists_iff.mp hn
    obtain ⟨hb, hz⟩ := h.blank id hn
    exact ⟨((hd id).blank hn).trans hb, (hp id hn).trans hz⟩
  sides id hn := by
    rw [(hd id).agentA, (hd id).agentB]
    exact h.sides id (mt (hd id).exists_iff.mpr hn)
  developers id a hn ha := by
    refine hdev a (h.developers id a (mt (hd id).exists_iff.mpr hn) ?_)
    rwa [Duel.HasAgent, (hd id).agentA, (hd id).agentB] at ha
  escrows := hesc

/-- The scored call before its bounty is settled. -/
theorem scored (h : WellFormed C s) {id : ℕ} {agent : Address} {scoreA scoreB : ℤ}
    {ingested survived : Address → ℕ} {failures : ℕ} (hlive : (s.duels id).status = .live) :
    WellFormed C (s.scored id agent scoreA scoreB ingested survived failures) := by
  have hi := h.info agent
  refine h.keep rfl (fun x => Duel.Keeps.update ?_ x) (fun _ _ => rfl)
    (fun a ha => developer_update (fun h => h) ha) h.treasury h.reserved
    (AgentInfo.Ok.update h.info ⟨hi.developer, hi.registered, hi.unregistered⟩) h.escrows
  exact .of_live hlive (by simp [hlive]) rfl rfl

theorem settled (h : WellFormed C s) {id i : ℕ} {agent : Address} {surv : Bool}
    (hlive : (s.duels id).status = .live) (hs : Settled C s id agent i surv s') :
    WellFormed C s' := by
  have hesc : ∀ k, k = 0 ∨ s.injectionCount < k →
      Function.update s.injectionEscrows i 0 k = 0 := by
    intro k hk
    by_cases hki : k = i
    · subst hki; simp
    · rw [Function.update_of_ne hki]; exact h.escrows k hk
  cases hs with
  | idle _ => exact h
  | bounty usdc _ _ _ _ _ hu =>
    exact h.keep rfl (fun _ => .refl _) (fun _ _ => rfl) (fun _ ha => ha) h.treasury
      (h.reserved.mono (hu.allowance _)) h.info hesc
  | pooled _ _ _ _ =>
    refine h.keep rfl (fun _ => .refl _) (fun k hk => ?_) (fun _ ha => ha) h.treasury h.reserved
      h.info hesc
    refine Function.update_of_ne ?_ _ _
    rintro rfl
    simp [hlive] at hk

/-- A new duel between two registered agents. -/
theorem create (h : WellFormed C s) {d : Duel} (hne : d.agentA ≠ d.agentB)
    (hA : (s.agents d.agentA).registered = true) (hB : (s.agents d.agentB).registered = true)
    (hs : d.status ≠ .none) :
    WellFormed C { s with
      duelCount := s.duelCount + 1
      duels := Function.update s.duels (s.duelCount + 1) d } where
  self_ne := h.self_ne
  treasury := h.treasury
  reserved := h.reserved
  info := h.info
  escrows := h.escrows
  counted id := by
    by_cases hid : id = s.duelCount + 1
    · subst hid
      simp [hs]
    · simp only [Function.update_of_ne hid, h.counted]
      omega
  blank id hn := by
    by_cases hid : id = s.duelCount + 1
    · subst hid
      simp [hs] at hn
    · simp only [Function.update_of_ne hid] at hn ⊢
      exact h.blank id hn
  sides id hn := by
    by_cases hid : id = s.duelCount + 1
    · subst hid
      simpa using hne
    · simp only [Function.update_of_ne hid] at hn ⊢
      exact h.sides id hn
  developers id a hn ha := by
    by_cases hid : id = s.duelCount + 1
    · subst hid
      simp only [Function.update_self, Duel.HasAgent] at ha
      rcases ha with rfl | rfl
      · exact (h.info _).registered hA
      · exact (h.info _).registered hB
    · simp only [Function.update_of_ne hid] at hn ha
      exact h.developers id a hn ha

/-- Every effect keeps the invariant. -/
theorem step (h : WellFormed C s) (hm : e.msg.sender ≠ C.self) (he : Effect C s e s') :
    WellFormed C s' := by
  cases he with
  | register agent usdc _ _ _ hu =>
    exact h.keep rfl (fun _ => .refl _) (fun _ _ => rfl)
      (fun a ha => developer_update (fun _ => e.msg.sender_ne) ha) h.treasury
      (hu.reserved h.reserved)
      (AgentInfo.Ok.update h.info ⟨hm, fun _ => e.msg.sender_ne, fun hr => by simp at hr⟩)
      h.escrows
  | create agentA agentB bettingSecs tradingSecs _ hne hA hB _ => exact h.create hne hA hB (by simp)
  | report id agent i rBps ing surv failed scoreA scoreB ingested survived failures s' _ hlive _ _
      hs =>
    exact (h.scored hlive).settled (by simp [State.scored, hlive]) hs
  | resolve id usdc shieldWinner _ hlive _ _ hu =>
    refine h.keep rfl (fun x => Duel.Keeps.update ?_ x) (fun k hk => ?_)
      (fun a ha => developer_update (fun hx => ?_) (developer_update (fun hx => hx) ha)) h.treasury
      (hu.reserved h.reserved)
      (AgentInfo.Ok.update (AgentInfo.Ok.update h.info (h.info _).closed) (h.info _).closed)
      h.escrows
    · exact .of_live hlive (by simp) rfl rfl
    · refine Function.update_of_ne ?_ _ _
      rintro rfl
      simp [hlive] at hk
    · exact h.developers id _ (by simp [hlive]) (.inr rfl)
  | bet id onA amount usdc _ hlive _ _ hu =>
    refine h.keep rfl (fun x => Duel.Keeps.update ?_ x) (fun _ _ => rfl) (fun _ ha => ha)
      h.treasury (hu.reserved h.reserved) h.info h.escrows
    cases onA <;> exact .of_live hlive (by simp [hlive]) rfl rfl
  | inject id target itemKind escrow usdc _ hlive _ _ hu _ =>
    refine h.keep rfl (fun _ => .refl _) (fun _ _ => rfl) (fun _ ha => ha) h.treasury
      (hu.reserved h.reserved) h.info ?_
    intro i hi
    dsimp only at hi ⊢
    rw [Function.update_of_ne (by omega)]
    exact h.escrows i (by omega)
  | fund id amount usdc _ hex _ hu =>
    refine h.keep rfl (fun _ => .refl _) (fun k hk => ?_) (fun _ ha => ha) h.treasury
      (hu.reserved h.reserved) h.info h.escrows
    refine Function.update_of_ne ?_ _ _
    rintro rfl
    exact hex hk
  | claim id newClaimed paid usdc _ _ _ _ _ hu =>
    exact { h with reserved := h.reserved.mono (hu.allowance _) }
  | params itemPrice treasury stakeRequirement operatorCutBps failureThreshold shieldMinScore _
      htr =>
    refine { h with treasury := ?_ }
    rcases htr with htr | rfl
    · exact htr
    · exact h.treasury
  | token op usdc _ _ hu =>
    exact { h with reserved := (Token.Op.exec_held hm h.reserved hu).2 }

/-- The state the constructor writes. -/
theorem deployed (h : Deployed C s) : WellFormed C s := by
  rw [h.eq_initial]
  exact {
    self_ne := h.self_ne
    treasury := h.treasury
    reserved := h.reserved
    info := fun _ =>
      ⟨h.self_ne.symm, fun hr => by simp [State.initial, AgentInfo.empty] at hr, fun _ => rfl⟩
    counted := fun id => by simp [State.initial, Duel.empty]; omega
    blank := fun _ _ => ⟨rfl, rfl⟩
    sides := fun _ hn => by simp [State.initial, Duel.empty] at hn
    developers := fun _ _ hn => by simp [State.initial, Duel.empty] at hn
    escrows := fun _ _ => rfl }

end WellFormed

section Runs

variable {C : Config} {s₀ s s' : State} {e : Event} {tr : List (Trace.Step State Event)}

theorem Step.wellFormed (h : WellFormed C s) (hst : Step C s e s') : WellFormed C s' :=
  h.step hst.1.1 (hst.effect h)

theorem Run.wellFormed (h₀ : Deployed C s₀) (h : Run C s₀ tr s) : WellFormed C s :=
  h.invariant (.deployed h₀) fun _ _ _ hs hst => hst.wellFormed hs

end Runs

end Colosseum
end Arcane
