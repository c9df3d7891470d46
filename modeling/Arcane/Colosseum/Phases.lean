import Arcane.Colosseum.Escrow

/-!
# The phases of a duel

Bets come first, then trading: calls and injections should land in `[tradingStartsAt, endsAt)`, so
that every bet is placed before anything is known (`PlacedBlind`). `bet` and `injectChaos` look at
`tradingStartsAt`, but `injectChaos` does not look at `endsAt`, and `reportCall` looks at neither.
`placedBlind_iff`: a run with nondecreasing block times keeps the phases exactly when the recorder
reports inside the window and nobody injects after it (`KeepsWindow`).
-/

namespace Arcane
namespace Colosseum

open Evm

/-- The call is recorded in duel `id`: a scored call or an injection. -/
def Call.Records (c : Call) (id : ℕ) : Prop :=
  match c with
  | .reportCall id' _ _ _ _ _ _ | .injectChaos id' _ _ => id' = id
  | _ => False

/-- Calls and injections land in the trading window, and a bet is placed before any of them. -/
structure PlacedBlind (tr : List (Trace.Step State Event)) : Prop where
  window : ∀ st ∈ tr, ∀ id, st.ev.call.Records id →
    (st.pre.duels id).tradingStartsAt ≤ st.ev.msg.timestamp ∧
      st.ev.msg.timestamp < (st.pre.duels id).endsAt
  blind : ∀ tr₁ st tr₂, tr = tr₁ ++ st :: tr₂ → ∀ id onA amount, st.ev.call = .bet id onA amount →
    (st.pre.duels id).scoreA = 0 ∧ (st.pre.duels id).scoreB = 0 ∧
      (∀ a, st.pre.injectionsAgainst id a = 0) ∧ ∀ st' ∈ tr₁, ¬ st'.ev.call.Records id

/-- A report comes inside the trading window of its duel, and an injection before its end. -/
def KeepsWindow (st : Trace.Step State Event) : Prop :=
  (∀ id agent i rBps ing surv failed,
    st.ev.call = .reportCall id agent i rBps ing surv failed →
      (st.pre.duels id).tradingStartsAt ≤ st.ev.msg.timestamp ∧
        st.ev.msg.timestamp < (st.pre.duels id).endsAt) ∧
    ∀ id target itemKind, st.ev.call = .injectChaos id target itemKind →
      st.ev.msg.timestamp < (st.pre.duels id).endsAt

/-- Block times do not decrease. -/
def Ordered (tr : List (Trace.Step State Event)) : Prop :=
  tr.Pairwise fun st st' => st.ev.msg.timestamp ≤ st'.ev.msg.timestamp

section Phases

variable {C : Config} {s₀ s s' : State} {e : Event} {tr : List (Trace.Step State Event)} {id : ℕ}

/-- A recorded call needs a live duel. -/
theorem Effect.records (he : Effect C s e s') (hr : e.call.Records id) :
    (s.duels id).status = .live ∧
      ((∃ agent i rBps ing surv failed, e.call = .reportCall id agent i rBps ing surv failed) ∨
        ∃ target itemKind, e.call = .injectChaos id target itemKind ∧
          (s.duels id).tradingStartsAt ≤ e.msg.timestamp) := by
  cases he with
  | report x agent i rBps ing surv failed _ _ _ _ _ _ hc hlive =>
    obtain rfl : x = id := by simpa [Call.Records, hc] using hr
    exact ⟨hlive, .inl ⟨agent, i, rBps, ing, surv, failed, hc⟩⟩
  | inject x target itemKind _ _ hc hlive htime =>
    obtain rfl : x = id := by simpa [Call.Records, hc] using hr
    exact ⟨hlive, .inr ⟨target, itemKind, hc, htime⟩⟩
  | register _ _ hc | create _ _ _ _ hc | fund _ _ _ hc | token _ _ hc | claim _ _ _ _ hc
  | bet _ _ _ _ hc | resolve _ _ _ hc => simp [Call.Records, hc] at hr
  | params _ _ _ _ _ _ hc =>
    unfold Call.Records at hr
    cases hcall : e.call <;> simp_all [Call.setter]

/-- Only an injection in the duel counts against its agents. -/
theorem Effect.against (he : Effect C s e s') (hn : ¬ e.call.Records id) :
    s'.injectionsAgainst id = s.injectionsAgainst id := by
  cases he with
  | inject x target itemKind _ _ hc =>
    refine Function.update_of_ne ?_ _ _
    rintro rfl
    exact hn (by simp [Call.Records, hc])
  | report x _ _ _ _ _ _ _ _ _ _ _ _ _ _ _ _ hs => cases hs <;> rfl
  | _ => rfl

/-- A bet comes before trading. -/
theorem Effect.bets {onA : Bool} {amount : ℕ} (he : Effect C s e s')
    (hc : e.call = .bet id onA amount) :
    (s.duels id).status = .live ∧ e.msg.timestamp < (s.duels id).tradingStartsAt := by
  cases he with
  | bet _ _ _ _ hc' hlive htime =>
    rw [hc] at hc'
    cases hc'
    exact ⟨hlive, htime⟩
  | _ => simp_all [Call.setter]

/-- A duel that exists keeps its schedule along a run. -/
theorem Run.schedule (hwf : WellFormed C s) (h : Run C s tr s')
    (hex : (s.duels id).status ≠ .none) :
    (s'.duels id).status ≠ .none ∧
      (s'.duels id).tradingStartsAt = (s.duels id).tradingStartsAt := by
  refine (h.invariant (I := fun x => WellFormed C x ∧ (x.duels id).status ≠ .none ∧
    (x.duels id).tradingStartsAt = (s.duels id).tradingStartsAt) ⟨hwf, hex, rfl⟩ ?_).2
  rintro x e x' ⟨hx, hex, hsame⟩ hst
  have hd := (hst.effect hx).duel hx id
  refine ⟨hst.wellFormed hx, ?_, (hd.schedule hx hex).2.2.1.trans hsame⟩
  generalize x'.duels id = d at hd
  cases hd with
  | same => exact hex
  | created | resolved => simp
  | scored _ _ _ _ _ _ _ _ _ hl | bet _ _ _ _ _ hl => simp [hl]

/-- What a duel looks like while nothing was recorded in it. -/
theorem Run.unrecorded (h₀ : Deployed C s₀) (h : Run C s₀ tr s)
    (hn : ∀ st ∈ tr, ¬ st.ev.call.Records id) :
    (s.duels id).scoreA = 0 ∧ (s.duels id).scoreB = 0 ∧ ∀ a, s.injectionsAgainst id a = 0 := by
  refine h.history (P := fun tr s => (∀ st ∈ tr, ¬ st.ev.call.Records id) →
    (s.duels id).scoreA = 0 ∧ (s.duels id).scoreB = 0 ∧ ∀ a, s.injectionsAgainst id a = 0)
    (fun _ => ?_) (fun tr s e s' hr ih hst hn => ?_) hn
  · rw [h₀.eq_initial]
    exact ⟨rfl, rfl, fun _ => rfl⟩
  · obtain ⟨hA, hB, hI⟩ := ih fun st hm => hn st (List.mem_append_left _ hm)
    have hrec : ¬ e.call.Records id := hn ⟨s, e, s'⟩ (by simp)
    have hwf := Run.wellFormed h₀ hr
    have he := hst.effect hwf
    refine ⟨?_, ?_, fun a => by rw [he.against hrec, hI a]⟩ <;>
    · have hd := he.duel hwf id
      generalize s'.duels id = d at hd ⊢
      cases hd with
      | same | bet | resolved => assumption
      | created => rfl
      | scored _ _ _ _ _ _ _ _ hc => exact absurd (by simp [Call.Records, hc]) hrec

/-- A run with nondecreasing block times keeps the phases exactly when its reports come inside the
window and its injections before its end. -/
theorem placedBlind_iff (h₀ : Deployed C s₀) (h : Run C s₀ tr s) (ht : Ordered tr) :
    PlacedBlind tr ↔ ∀ st ∈ tr, KeepsWindow st := by
  constructor
  · intro hb st hm
    constructor
    · intro id agent i rBps ing surv failed hc
      exact hb.window st hm id (by simp [Call.Records, hc])
    · intro id target itemKind hc
      exact (hb.window st hm id (by simp [Call.Records, hc])).2
  · intro hk
    have hwindow : ∀ st ∈ tr, ∀ id, st.ev.call.Records id →
        (st.pre.duels id).tradingStartsAt ≤ st.ev.msg.timestamp ∧
          st.ev.msg.timestamp < (st.pre.duels id).endsAt := by
      intro st hm id hrec
      obtain ⟨tr₁, _, -, hr, hst, -⟩ := h.of_mem hm
      rcases ((hst.effect (Run.wellFormed h₀ hr)).records hrec).2 with
        ⟨agent, i, rBps, ing, surv, failed, hc⟩ | ⟨target, itemKind, hc, hstart⟩
      · exact (hk st hm).1 id agent i rBps ing surv failed hc
      · exact ⟨hstart, (hk st hm).2 id target itemKind hc⟩
    refine ⟨hwindow, ?_⟩
    rintro tr₁ st tr₂ rfl id onA amount hc
    obtain ⟨hr, hst, -⟩ := h.split
    obtain ⟨hlive, hbefore⟩ := (hst.effect (Run.wellFormed h₀ hr)).bets hc
    have hnone : ∀ st' ∈ tr₁, ¬ st'.ev.call.Records id := by
      intro st' hm hrec
      obtain ⟨hstart, -⟩ := hwindow st' (List.mem_append_left _ hm) id hrec
      have hle := (List.pairwise_append.mp ht).2.2 st' hm st (by simp)
      -- the duel had its schedule already when the call was recorded
      obtain ⟨tr₃, tr₄, -, hr', hst', hrest⟩ := hr.of_mem hm
      have hwf' := Run.wellFormed h₀ hr'
      have hl := ((hst'.effect hwf').records hrec).1
      have hrun : Run C st'.pre ([] ++ [st'] ++ tr₄) st.pre :=
        (Trace.Run.nil.snoc _ hst').append hrest
      have hsame := (Run.schedule hwf' hrun (Status.exists_of_live hl)).2
      omega
    obtain ⟨hA, hB, hI⟩ := Run.unrecorded h₀ hr hnone
    exact ⟨hA, hB, hI, hnone⟩

end Phases

namespace Demo

/-- The recorder scores a call while bets are open. -/
def early : List (Msg × Call) :=
  funding ++ [(.of 0xDA 1, .registerAgent 0xA1),
    (.of 0xDB 1, .registerAgent 0xA2),
    (.of 0xBEEF 2, .createDuel 0xA1 0xA2 10 10),
    (.of 0xBEEF 3, .reportCall 1 0xA1 0 500 false false false),
    (.of 0xE1 4, .bet 1 true 3)]

/-- A bet is accepted on a duel whose score is known. -/
theorem early_not_blind : ∃ tr s, Run config start tr s ∧ Ordered tr ∧
    (s.duels 1).scoreA = 500 ∧ s.betOf 1 true 0xE1 = 3 ∧ ¬ PlacedBlind tr := by
  have h : (play config start early).map (fun r => (decide ((r.1.map (·.ev.msg.timestamp)).Pairwise
      (· ≤ ·)), (r.2.duels 1).scoreA, r.2.betOf 1 true 0xE1, r.1.any fun st => decide
        (st.ev.call = .reportCall 1 0xA1 0 500 false false false ∧ st.ev.msg.timestamp = 3 ∧
          (st.pre.duels 1).tradingStartsAt = 12))) = some (true, 500, 3, true) := by decide +kernel
  obtain ⟨r, hr, hv⟩ := Option.map_eq_some_iff.mp h
  simp only [Prod.mk.injEq, List.any_eq_true, decide_eq_true_eq] at hv
  obtain ⟨ht, hA, hbet, st, hm, hc, htime, hstart⟩ := hv
  refine ⟨r.1, r.2, Run.of_play hr, List.pairwise_map.mp ht, hA, hbet, fun hb => ?_⟩
  have := (hb.window st hm 1 (by simp [Call.Records, hc])).1
  omega

/-- The run of `Demo.attributed` keeps the phases. -/
theorem duel_blind : ∃ tr s, Run config start tr s ∧ s.injectionCount = 1 ∧ PlacedBlind tr := by
  have h : (play config start attributed).map (fun r => (decide
      ((r.1.map (·.ev.msg.timestamp)).Pairwise (· ≤ ·)), r.2.injectionCount, r.1.all fun st =>
        match st.ev.call with
        | .reportCall id _ _ _ _ _ _ | .injectChaos id _ _ => decide
          ((st.pre.duels id).tradingStartsAt ≤ st.ev.msg.timestamp ∧
            st.ev.msg.timestamp < (st.pre.duels id).endsAt)
        | _ => true)) = some (true, 1, true) := by decide +kernel
  obtain ⟨r, hr, hv⟩ := Option.map_eq_some_iff.mp h
  simp only [Prod.mk.injEq, List.all_eq_true, decide_eq_true_eq] at hv
  obtain ⟨ht, hcount, hall⟩ := hv
  have hrun := Run.of_play hr
  refine ⟨r.1, r.2, hrun, hcount,
    (placedBlind_iff deployed hrun (List.pairwise_map.mp ht)).mpr fun st hm => ⟨?_, ?_⟩⟩
  · intro id agent i rBps ing surv failed hc
    have := hall st hm
    rw [hc] at this
    simpa using this
  · intro id target itemKind hc
    have := hall st hm
    rw [hc] at this
    exact (by simpa using this : _ ∧ _).2

end Demo

end Colosseum
end Arcane
