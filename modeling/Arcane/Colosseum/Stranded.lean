import Arcane.Colosseum.Escrow

/-!
# What a resolved duel leaves behind

A resolved duel should strand no money (`Cleared`): its prize pool is empty, and the escrows of its
injections were paid out. `fundPrizePool` accepts a resolved duel, and `resolve` does not look at
the escrows of injections that were never reported. `cleared_iff`: a run leaves every resolved duel
cleared exactly when prize pools are funded while the duel is live, and a duel is resolved when all
its injections are settled and none of them feeds the prize pool of another duel that is not
resolved yet (`ClosesClean`).
-/

namespace Arcane
namespace Colosseum

open Evm

/-- The step sweeps the escrow of injection `i` into the prize pool of duel `id`. -/
def PoolsInto (st : Trace.Step State Event) (i id : ℕ) : Prop :=
  (∃ agent rBps ing surv failed, st.ev.call = .reportCall id agent i rBps ing surv failed) ∧
    st.pre.injectionEscrows i ≠ 0 ∧ st.post.prizePool id ≠ st.pre.prizePool id

/-- The ids of the injections made in duel `id`. -/
def injectionsIn (id : ℕ) (tr : List (Trace.Step State Event)) : List ℕ :=
  tr.filterMap fun st =>
    match st.ev.call with
    | .injectChaos id' _ _ => if id' = id then some st.ev.ret else none
    | _ => none

/-- What the step moved from the injections in `is` to the prize pool of a duel other than `id`
that state `s` has not resolved. -/
def sweptElsewhere (is : List ℕ) (s : State) (id : ℕ) (st : Trace.Step State Event) : ℕ :=
  match st.ev.call with
  | .reportCall id' _ i _ _ _ _ =>
    if i ∈ is ∧ id' ≠ id ∧ st.pre.injectionEscrows i ≠ 0 ∧ (s.duels id').status ≠ .resolved then
      st.post.prizePool id' - st.pre.prizePool id'
    else 0
  | _ => 0

/-- The USDC that entered through duel `id` and is still in the contract. -/
noncomputable def heldFrom (id : ℕ) (tr : List (Trace.Step State Event)) (s : State) : ℕ :=
  s.outstanding id + s.prizePool id + ((injectionsIn id tr).map s.injectionEscrows).sum +
    (tr.map (sweptElsewhere (injectionsIn id tr) s id)).sum

/-- Duel `id` strands no money. -/
structure Cleared (tr : List (Trace.Step State Event)) (s : State) (id : ℕ) : Prop where
  prizePool : s.prizePool id = 0
  escrows : ∀ i a, Injected tr i id a → s.injectionEscrows i = 0
  /-- The prize pools that its injections fed were paid out. -/
  flows : ∀ i a, Injected tr i id a → ∀ st ∈ tr, ∀ id', PoolsInto st i id' →
    (s.duels id').status = .resolved
  /-- Only unclaimed bets are left. -/
  left : heldFrom id tr s = s.outstanding id

/-- Prize pools are funded while the duel is live, and a duel is resolved when its injections are
settled, none of them into the prize pool of another duel that is not resolved. -/
def ClosesClean (tr : List (Trace.Step State Event)) (st : Trace.Step State Event) : Prop :=
  (∀ id amount, st.ev.call = .fundPrizePool id amount → (st.pre.duels id).status = .live) ∧
    ∀ id, st.ev.call = .resolve id → ∀ i a, Injected tr i id a →
      st.pre.injectionEscrows i = 0 ∧
        ∀ st' ∈ tr, ∀ id', PoolsInto st' i id' →
          id' = id ∨ (st.pre.duels id').status = .resolved

section Clearing

variable {C : Config} {s₀ s s' : State} {e : Event} {tr : List (Trace.Step State Event)} {id : ℕ}

theorem mem_injectionsIn {i : ℕ} : i ∈ injectionsIn id tr ↔ ∃ a, Injected tr i id a := by
  unfold injectionsIn
  rw [List.mem_filterMap]
  constructor
  · rintro ⟨st, hm, hst⟩
    split at hst
    · rename_i id' a k hc
      split at hst
      · rename_i hid
        subst hid
        exact ⟨a, st, hm, k, hc, by simpa using hst⟩
      · cases hst
    · cases hst
  · rintro ⟨a, st, hm, k, hc, hret⟩
    exact ⟨st, hm, by simp [hc, hret]⟩

theorem sweptElsewhere_eq_zero {st : Trace.Step State Event} (hm : st ∈ tr)
    (hf : ∀ i a, Injected tr i id a → ∀ st ∈ tr, ∀ id', PoolsInto st i id' →
      (s.duels id').status = .resolved) : sweptElsewhere (injectionsIn id tr) s id st = 0 := by
  unfold sweptElsewhere
  split
  · rename_i id' agent i rBps ing surv failed hc
    split
    · rename_i h
      obtain ⟨hi, -, hne, hres⟩ := h
      obtain ⟨a, hi⟩ := mem_injectionsIn.mp hi
      by_contra hpos
      refine hres (hf i a hi st hm id' ⟨⟨agent, rBps, ing, surv, failed, hc⟩, hne, fun heq => ?_⟩)
      rw [heq] at hpos
      omega
    · rfl
  · rfl

/-- Without escrows or flows elsewhere, the bets are what is left. -/
theorem Cleared.of_zero (hp : s.prizePool id = 0)
    (he : ∀ i a, Injected tr i id a → s.injectionEscrows i = 0)
    (hf : ∀ i a, Injected tr i id a → ∀ st ∈ tr, ∀ id', PoolsInto st i id' →
      (s.duels id').status = .resolved) : Cleared tr s id where
  prizePool := hp
  escrows := he
  flows := hf
  left := by
    have hesc : ((injectionsIn id tr).map s.injectionEscrows).sum = 0 := by
      apply List.sum_eq_zero
      intro x hx
      obtain ⟨i, hi, rfl⟩ := List.mem_map.mp hx
      obtain ⟨a, hi⟩ := mem_injectionsIn.mp hi
      exact he i a hi
    have hswept : (tr.map (sweptElsewhere (injectionsIn id tr) s id)).sum = 0 := by
      apply List.sum_eq_zero
      intro x hx
      obtain ⟨st, hm, rfl⟩ := List.mem_map.mp hx
      exact sweptElsewhere_eq_zero hm hf
    unfold heldFrom
    omega

/-- A resolved duel stays resolved. -/
theorem Effect.resolved_mono (hwf : WellFormed C s) (he : Effect C s e s')
    (hr : (s.duels id).status = .resolved) : (s'.duels id).status = .resolved := by
  rw [(he.duel hwf id).of_resolved hwf hr]
  exact hr

/-- A duel that becomes resolved is resolved by this call. -/
theorem Effect.resolve_of_resolved (hwf : WellFormed C s) (he : Effect C s e s')
    (hr : (s'.duels id).status = .resolved) (hn : (s.duels id).status ≠ .resolved) :
    e.call = .resolve id := by
  have hd := he.duel hwf id
  generalize s'.duels id = d at hd hr
  cases hd with
  | same => exact absurd hr hn
  | created => cases hr
  | scored | bet => exact absurd hr hn
  | resolved _ hc => exact hc

/-- Injections are made in live duels. -/
theorem Injected.old {i : ℕ} {a : Address} (he : Effect C s e s')
    (hi : Injected (tr ++ [⟨s, e, s'⟩]) i id a)
    (hn : (s.duels id).status ≠ .live ∨ e.call = .resolve id) : Injected tr i id a := by
  rcases injected_snoc.mp hi with hi | ⟨k, hc, -⟩
  · exact hi
  · rcases hn with hn | hc'
    · exact absurd (he.injects hc).1 hn
    · simp [hc'] at hc

/-- A resolved duel stays cleared. -/
theorem Cleared.step (hwf : WellFormed C s) (hrec : Recorded tr s) (h : Cleared tr s id)
    (hr : (s.duels id).status = .resolved) (he : Effect C s e s')
    (hclean : ClosesClean tr ⟨s, e, s'⟩) : Cleared (tr ++ [⟨s, e, s'⟩]) s' id := by
  have hn : (s.duels id).status ≠ .live ∨ e.call = .resolve id := .inl (by simp [hr])
  refine .of_zero ?_ (fun i a hi => ?_) (fun i a hi st hm id' hp => ?_)
  · have hp := he.prize id
    generalize s'.prizePool id = p at hp ⊢
    cases hp with
    | same => exact h.prizePool
    | funded amount hc => exact absurd (hclean.1 id amount hc) (by simp [hr])
    | pooled _ _ _ _ _ _ _ hl => simp [hr] at hl
    | emptied => rfl
  · have hi := hi.old he hn
    cases he.escrow hwf i with
    | same hkeep => exact hkeep.trans (h.escrows i a hi)
    | created _ _ _ _ _ hid =>
      have := hrec.counted i id a hi
      omega
    | settled _ _ _ _ _ _ _ _ _ _ _ hzero => exact hzero
  · have hi := hi.old he hn
    rcases List.mem_append.mp hm with hm | hm
    · exact he.resolved_mono hwf (h.flows i a hi st hm id' hp)
    · obtain rfl : st = ⟨s, e, s'⟩ := by simpa using hm
      exact absurd (h.escrows i a hi) hp.2.1

/-- A duel is cleared when it is resolved. -/
theorem Cleared.close (hwf : WellFormed C s) (he : Effect C s e s') (hc : e.call = .resolve id)
    (hclean : ClosesClean tr ⟨s, e, s'⟩) : Cleared (tr ++ [⟨s, e, s'⟩]) s' id := by
  obtain ⟨hres, hp, hesc, -⟩ := he.resolves hc
  refine .of_zero hp (fun i a hi => ?_) (fun i a hi st hm id' hp => ?_)
  · have hi := hi.old he (.inr hc)
    rw [hesc]
    exact (hclean.2 id hc i a hi).1
  · have hi := hi.old he (.inr hc)
    rcases List.mem_append.mp hm with hm | hm
    · rcases (hclean.2 id hc i a hi).2 st hm id' hp with rfl | hr
      · exact hres
      · exact he.resolved_mono hwf hr
    · obtain rfl : st = ⟨s, e, s'⟩ := by simpa using hm
      obtain ⟨⟨_, _, _, _, _, hc'⟩, -⟩ := hp
      simp [hc] at hc'

theorem Run.cleared (h₀ : Deployed C s₀) (h : Run C s₀ tr s)
    (hclean : ∀ tr₁ st tr₂, tr = tr₁ ++ st :: tr₂ → ClosesClean tr₁ st) (id : ℕ)
    (hr : (s.duels id).status = .resolved) : Cleared tr s id := by
  refine h.history (P := fun tr s => (∀ tr₁ st tr₂, tr = tr₁ ++ st :: tr₂ → ClosesClean tr₁ st) →
    (s.duels id).status = .resolved → Cleared tr s id) (fun _ hr => ?_)
    (fun tr s e s' hrun ih hst hclean hr => ?_) hclean hr
  · rw [h₀.eq_initial] at hr
    cases hr
  · have hwf := Run.wellFormed h₀ hrun
    have he := hst.effect hwf
    have hlast : ClosesClean tr ⟨s, e, s'⟩ := hclean tr _ [] rfl
    by_cases hs : (s.duels id).status = .resolved
    · have ih := ih (fun tr₁ st tr₂ h => hclean tr₁ st (tr₂ ++ [⟨s, e, s'⟩]) (by simp [h])) hs
      exact ih.step hwf (Run.recorded h₀ hrun) hs he hlast
    · exact .close hwf he (he.resolve_of_resolved hwf hr hs) hlast

/-- A run leaves every resolved duel cleared, in each of its states, exactly when its fundings and
resolutions are clean. -/
theorem cleared_iff (h₀ : Deployed C s₀) (h : Run C s₀ tr s) :
    (∀ tr₁ tr₂ s₁, tr = tr₁ ++ tr₂ → Run C s₀ tr₁ s₁ →
      ∀ id, (s₁.duels id).status = .resolved → Cleared tr₁ s₁ id) ↔
      ∀ tr₁ st tr₂, tr = tr₁ ++ st :: tr₂ → ClosesClean tr₁ st := by
  constructor
  · intro hall tr₁ st tr₂ htr
    subst htr
    obtain ⟨hr, hst, -⟩ := h.split
    have hwf := Run.wellFormed h₀ hr
    have he := hst.effect hwf
    have hpost := hall (tr₁ ++ [st]) tr₂ st.post (by simp) (hr.snoc st.ev hst)
    refine ⟨fun id amount hc => ?_, fun id hc i a hi => ?_⟩
    · obtain ⟨hex, hpos, hp, hd⟩ := he.funds hc
      by_contra hl
      have hres : (st.pre.duels id).status = .resolved := by
        cases hs : (st.pre.duels id).status with
        | none => exact absurd hs hex
        | live => exact absurd hs hl
        | resolved => rfl
      have hz := (hpost id (hd ▸ hres)).prizePool
      omega
    · obtain ⟨hres, -, hesc, hkeep⟩ := he.resolves hc
      have hcl := hpost id hres
      refine ⟨hesc ▸ hcl.escrows i a hi.mono, fun st' hm id' hp => ?_⟩
      by_cases hid : id' = id
      · exact .inl hid
      · have := hcl.flows i a hi.mono st' (List.mem_append_left _ hm) id' hp
        rw [hkeep id' hid] at this
        exact .inr this
  · rintro hclean tr₁ tr₂ s₁ rfl h₁ id hr
    exact Run.cleared h₀ h₁ (fun tr₁ st tr₃ h => hclean tr₁ st (tr₃ ++ tr₂) (by simp [h])) id hr

end Clearing

namespace Demo

/-- An injection that is never reported, and a sponsor who comes too late. -/
def stranded : List (Msg × Call) :=
  duel ++ [(.of 0xE1 22, .resolve 1),
    (.of 0xE2 23, .fundPrizePool 1 5)]

/-- The escrow and the late funding stay in the contract. -/
theorem duel_strands : ∃ tr s, Run config start tr s ∧ (s.duels 1).status = .resolved ∧
    s.prizePool 1 = 5 ∧ Injected tr 1 1 0xA1 ∧ s.injectionEscrows 1 = 450000 ∧
    ¬ Cleared tr s 1 := by
  have h : (play config start stranded).map (fun r => ((r.2.duels 1).status, r.2.prizePool 1,
      r.2.injectionEscrows 1,
      r.1.any fun st => decide (st.ev.call = .injectChaos 1 0xA1 0 ∧ st.ev.ret = 1))) =
      some (.resolved, 5, 450000, true) := by decide +kernel
  obtain ⟨r, hr, hv⟩ := Option.map_eq_some_iff.mp h
  simp only [Prod.mk.injEq, List.any_eq_true, decide_eq_true_eq] at hv
  obtain ⟨hres, hp, hesc, st, hm, hc, hret⟩ := hv
  refine ⟨r.1, r.2, Run.of_play hr, hres, hp, ⟨st, hm, 0, hc, hret⟩, hesc, fun hcl => ?_⟩
  have := hcl.prizePool
  omega

/-- The injection is reported before the duel is resolved. -/
def cleared : List (Msg × Call) := attributed ++ [(.of 0xE1 22, .resolve 1)]

theorem duel_cleared : ∃ tr s, Run config start tr s ∧ (s.duels 1).status = .resolved ∧
    ∀ tr₁ tr₂ s₁, tr = tr₁ ++ tr₂ → Run config start tr₁ s₁ →
      ∀ id, (s₁.duels id).status = .resolved → Cleared tr₁ s₁ id := by
  have h : (play config start cleared).map (fun r => ((r.2.duels 1).status,
      r.1.all fun st =>
        match st.ev.call with
        | .fundPrizePool id _ => decide ((st.pre.duels id).status = .live)
        | .resolve id => decide (id = 1 ∧ st.pre.injectionEscrows 1 = 0)
        | .injectChaos id _ _ => decide (id = 1 ∧ st.ev.ret = 1)
        | .reportCall id _ _ _ _ _ _ => decide (id = 1)
        | _ => true)) = some (.resolved, true) := by decide +kernel
  obtain ⟨r, hr, hv⟩ := Option.map_eq_some_iff.mp h
  simp only [Prod.mk.injEq, List.all_eq_true] at hv
  obtain ⟨hres, hall⟩ := hv
  have hrun := Run.of_play hr
  refine ⟨r.1, r.2, hrun, hres, (cleared_iff deployed hrun).mpr ?_⟩
  intro tr₁ st tr₂ htr
  have hst := hall st (by simp [htr])
  refine ⟨fun id amount hc => by simpa [hc] using hst, fun id hc i a hi => ?_⟩
  obtain ⟨rfl, hesc⟩ : id = 1 ∧ st.pre.injectionEscrows 1 = 0 := by simpa [hc] using hst
  refine ⟨?_, fun st' hm id' hp => ?_⟩
  · obtain ⟨st', hm, k, hc', hret⟩ := hi
    have := hall st' (by simp [htr, hm])
    rw [hc'] at this
    obtain ⟨-, hone⟩ : 1 = 1 ∧ st'.ev.ret = 1 := by simpa using this
    rw [← hret, hone]
    exact hesc
  · obtain ⟨⟨_, _, _, _, _, hc'⟩, -⟩ := hp
    have := hall st' (by simp [htr, hm])
    rw [hc'] at this
    exact .inl (by simpa using this)

end Demo

end Colosseum
end Arcane
