import Arcane.Colosseum.Frame
import Arcane.Colosseum.Solvency

/-!
# Where the escrows go

An injection belongs to the duel it was made in (`Injected`). `reportCall` checks that the injection
targets the reported agent, but not that it was made in the reported duel, so an agent that fights
in several duels can have the escrow of one swept into the prize pool of another.

* `Recorded`, `Run.recorded`: every positive escrow has one injection behind it, whose target the
  storage keeps.
* `attributed_iff`: escrows are attributed to their own duel (`Attributed`) exactly when every
  report of an unsettled injection names the duel of the injection (`ReportsOwnDuel`).
-/

namespace Arcane
namespace Colosseum

open Evm

/-- In the run `tr`, injection `i` was made in duel `id` against `agent`. -/
def Injected (tr : List (Trace.Step State Event)) (i id : ℕ) (agent : Address) : Prop :=
  ∃ st ∈ tr, ∃ itemKind, st.ev.call = .injectChaos id agent itemKind ∧ st.ev.ret = i

/-- The step settles the escrow of `i`. -/
def Settles (st : Trace.Step State Event) (i : ℕ) : Prop :=
  st.pre.injectionEscrows i ≠ 0 ∧ st.post.injectionEscrows i = 0

instance (st : Trace.Step State Event) (i : ℕ) : Decidable (Settles st i) :=
  inferInstanceAs (Decidable (_ ∧ _))

/-- Escrows are settled at most once, by a report on the injection's own duel and agent, and go to
the agent's developer or into that duel's prize pool. -/
structure Attributed (C : Config) (tr : List (Trace.Step State Event)) : Prop where
  once : ∀ i, (tr.filter (Settles · i)).length ≤ 1
  only : ∀ st ∈ tr, ∀ i, st.post.injectionEscrows i ≠ st.pre.injectionEscrows i →
    Settles st i ∨ ∃ id agent itemKind, st.ev.call = .injectChaos id agent itemKind ∧
      st.ev.ret = i
  own : ∀ i id agent, Injected tr i id agent → ∀ st ∈ tr, Settles st i →
    (∃ rBps ing surv failed, st.ev.call = .reportCall id agent i rBps ing surv failed) ∧
      Paid C st.pre st.post id agent i

/-- A report of an injection with a positive escrow names the duel the injection was made in. -/
def ReportsOwnDuel (tr : List (Trace.Step State Event)) (st : Trace.Step State Event) : Prop :=
  ∀ id agent i rBps ing surv failed,
    st.ev.call = .reportCall id agent i rBps ing surv failed → st.pre.injectionEscrows i ≠ 0 →
      ∃ target, Injected tr i id target

/-! ## The history of an injection -/

section History

variable {C : Config} {s₀ s s' : State} {e : Event} {tr : List (Trace.Step State Event)}
  {i id id' : ℕ} {a a' : Address}

theorem Injected.mono {tr' : List (Trace.Step State Event)} (h : Injected tr i id a) :
    Injected (tr ++ tr') i id a := by
  obtain ⟨st, hm, k, hc, hret⟩ := h
  exact ⟨st, List.mem_append_left _ hm, k, hc, hret⟩

theorem injected_nil : ¬ Injected [] i id a := by
  rintro ⟨st, hm, -⟩
  simp at hm

theorem injected_snoc {st : Trace.Step State Event} : Injected (tr ++ [st]) i id a ↔
    Injected tr i id a ∨ ∃ k, st.ev.call = .injectChaos id a k ∧ st.ev.ret = i := by
  constructor
  · rintro ⟨st', hm, k, hc, hret⟩
    rcases List.mem_append.mp hm with hm | hm
    · exact .inl ⟨st', hm, k, hc, hret⟩
    · obtain rfl : st' = st := by simpa using hm
      exact .inr ⟨k, hc, hret⟩
  · rintro (h | ⟨k, hc, hret⟩)
    · exact h.mono
    · exact ⟨st, by simp, k, hc, hret⟩

/-- An accepted injection takes the next id. -/
theorem Effect.injects {k : ℕ} (he : Effect C s e s') (hc : e.call = .injectChaos id a k) :
    (s.duels id).status = .live ∧ e.ret = s.injectionCount + 1 ∧
      s'.injectionCount = s.injectionCount + 1 ∧ s'.injectionTarget e.ret = a := by
  cases he with
  | inject _ _ _ _ _ hc' hlive _ _ _ hret =>
    rw [hc] at hc'
    cases hc'
    rw [hret]
    exact ⟨hlive, rfl, rfl, Function.update_self _ _ _⟩
  | _ => simp_all [Call.setter]

theorem Effect.injectionCount_le (he : Effect C s e s') :
    s.injectionCount ≤ s'.injectionCount := by
  cases he with
  | report _ _ _ _ _ _ _ _ _ _ _ _ _ _ _ _ _ hs => exact hs.target.2.ge
  | inject => exact Nat.le_succ _
  | _ => exact le_rfl

/-- What the storage knows of the injections made. -/
structure Recorded (tr : List (Trace.Step State Event)) (s : State) : Prop where
  counted : ∀ i id a, Injected tr i id a → i ≤ s.injectionCount
  target : ∀ i id a, Injected tr i id a → s.injectionTarget i = a
  unique : ∀ i id id' a a', Injected tr i id a → Injected tr i id' a' → id = id'
  made : ∀ i, s.injectionEscrows i ≠ 0 → ∃ id a, Injected tr i id a

theorem Recorded.step (hwf : WellFormed C s) (h : Recorded tr s) (he : Effect C s e s') :
    Recorded (tr ++ [⟨s, e, s'⟩]) s' := by
  have hnew : ∀ i id a, (∃ k, e.call = .injectChaos id a k ∧ e.ret = i) →
      i = s.injectionCount + 1 ∧ s'.injectionCount = s.injectionCount + 1 ∧
        s'.injectionTarget i = a := by
    rintro i id a ⟨k, hc, rfl⟩
    exact (he.injects hc).2
  have hle := he.injectionCount_le
  refine ⟨?_, ?_, ?_, ?_⟩
  · intro i id a hi
    rcases injected_snoc.mp hi with hi | hi
    · exact (h.counted i id a hi).trans hle
    · have := hnew i id a hi
      omega
  · intro i id a hi
    rcases injected_snoc.mp hi with hi | hi
    · have ht := h.target i id a hi
      cases he.escrow hwf i with
      | same _ hkeep => exact hkeep.trans ht
      | created _ _ _ _ _ hid =>
        have := h.counted i id a hi
        omega
      | settled _ _ _ _ _ _ _ _ _ _ htarget _ hkeep => exact (hkeep.trans htarget.symm).trans ht
    · exact (hnew i id a hi).2.2
  · intro i id id' a a' hi hi'
    rcases injected_snoc.mp hi with hi | hi <;> rcases injected_snoc.mp hi' with hi' | hi'
    · exact h.unique i id id' a a' hi hi'
    · have := h.counted i id a hi
      have := hnew i id' a' hi'
      omega
    · have := h.counted i id' a' hi'
      have := hnew i id a hi
      omega
    · obtain ⟨_, hc, -⟩ := hi
      obtain ⟨_, hc', -⟩ := hi'
      rw [hc] at hc'
      cases hc'
      rfl
  · intro i hne
    cases he.escrow hwf i with
    | same hkeep =>
      obtain ⟨id, a, hi⟩ := h.made i (hkeep ▸ hne)
      exact ⟨id, a, hi.mono⟩
    | created id target k hc hret => exact ⟨id, target, injected_snoc.mpr (.inr ⟨k, hc, hret⟩)⟩
    | settled _ _ _ _ _ _ _ _ _ _ _ hzero => exact absurd hzero hne

theorem Run.recorded (h₀ : Deployed C s₀) (h : Run C s₀ tr s) : Recorded tr s := by
  refine h.history (P := Recorded) ?_ fun tr s e s' hr ih hst => ?_
  · rw [h₀.eq_initial]
    exact ⟨fun _ _ _ hi => absurd hi injected_nil, fun _ _ _ hi => absurd hi injected_nil,
      fun _ _ _ _ _ hi => absurd hi injected_nil, fun _ hne => absurd rfl hne⟩
  · have hwf := Run.wellFormed h₀ hr
    exact ih.step hwf (hst.effect hwf)

/-- An escrow is settled at most once, and its injection is not made again. -/
theorem Run.settled_once (h₀ : Deployed C s₀) (h : Run C s₀ tr s) (i : ℕ) :
    (tr.filter (Settles · i)).length ≤ 1 ∧
      ((tr.filter (Settles · i)).length = 1 → s.injectionEscrows i = 0 ∧ i ≤ s.injectionCount) := by
  refine h.history (P := fun tr s => (tr.filter (Settles · i)).length ≤ 1 ∧
    ((tr.filter (Settles · i)).length = 1 → s.injectionEscrows i = 0 ∧ i ≤ s.injectionCount))
    ⟨by simp, by simp⟩ ?_
  intro tr s e s' hr ih hst
  have hwf := Run.wellFormed h₀ hr
  have he := hst.effect hwf
  have hle := he.injectionCount_le
  rw [List.filter_append, List.length_append]
  by_cases hs : Settles ⟨s, e, s'⟩ i
  · -- the escrow was positive, so no earlier step settled it
    have hpos : s.injectionEscrows i ≠ 0 := hs.1
    have hin : i ≤ s.injectionCount := by
      by_contra hn
      exact hpos (hwf.escrows i (.inr (by omega)))
    have hzero : (tr.filter (Settles · i)).length = 0 := by
      have := mt ih.2 fun h => hpos h.1
      omega
    rw [List.filter_cons_of_pos (by simpa using hs), hzero]
    exact ⟨by simp, fun _ => ⟨hs.2, hin.trans hle⟩⟩
  · rw [List.filter_cons_of_neg (by simpa using hs)]
    refine ⟨by simpa using ih.1, fun hlen => ?_⟩
    obtain ⟨hz, hin⟩ := ih.2 (by simpa using hlen)
    refine ⟨?_, hin.trans hle⟩
    cases he.escrow hwf i with
    | same hkeep => exact hkeep.trans hz
    | created _ _ _ _ _ hid => omega
    | settled _ _ _ _ _ _ _ _ _ hne => exact absurd hz hne

end History

section Attribution

variable {C : Config} {s₀ s : State} {tr : List (Trace.Step State Event)}

/-- A run attributes its escrows to their own duels exactly when each of its reports of an
unsettled injection names the duel of the injection. -/
theorem attributed_iff (h₀ : Deployed C s₀) (h : Run C s₀ tr s) :
    Attributed C tr ↔ ∀ st ∈ tr, ReportsOwnDuel tr st := by
  have hrec := Run.recorded h₀ h
  constructor
  · intro hatt st hm id agent i rBps ing surv failed hc hne
    obtain ⟨tr₁, tr₂, rfl, hr, hst, -⟩ := h.of_mem hm
    have hwf := Run.wellFormed h₀ hr
    obtain ⟨id', a, hi⟩ := (Run.recorded h₀ hr).made i hne
    have hsettles : Settles st i := by
      refine ⟨hne, ?_⟩
      cases (hst.effect hwf).escrow hwf i with
      | same _ _ hrep => exact absurd (hrep _ _ _ _ _ _ hc) hne
      | created _ _ _ hc' => simp [hc] at hc'
      | settled _ _ _ _ _ _ _ _ _ _ _ hzero => exact hzero
    obtain ⟨⟨_, _, _, _, hc'⟩, -⟩ := hatt.own i id' a hi.mono st hm hsettles
    rw [hc] at hc'
    cases hc'
    exact ⟨agent, hi.mono⟩
  · intro hown
    refine ⟨fun i => (Run.settled_once h₀ h i).1, fun st hm i hne => ?_, ?_⟩
    · obtain ⟨tr₁, tr₂, rfl, hr, hst, -⟩ := h.of_mem hm
      have hwf := Run.wellFormed h₀ hr
      cases (hst.effect hwf).escrow hwf i with
      | same hkeep => exact absurd hkeep hne
      | created id target k hc hret => exact .inr ⟨id, target, k, hc, hret⟩
      | settled _ _ _ _ _ _ _ _ _ hpos _ hzero => exact .inl ⟨hpos, hzero⟩
    · intro i id agent hi st hm hs
      have hid := hown st hm
      obtain ⟨tr₁, tr₂, rfl, hr, hst, -⟩ := h.of_mem hm
      have hwf := Run.wellFormed h₀ hr
      cases (hst.effect hwf).escrow hwf i with
      | same hkeep => exact absurd (hkeep ▸ hs.2) hs.1
      | created _ _ _ _ _ _ _ hzero => exact absurd hzero hs.1
      | settled id' agent' rBps ing surv failed hc _ _ hpos htarget _ _ hpaid =>
        obtain ⟨target, hi'⟩ := hid id' agent' i rBps ing surv failed hc hpos
        obtain rfl := hrec.unique i id id' agent target hi hi'
        -- the target in storage is the one of the injection
        obtain ⟨id₂, a, hi₂⟩ := (Run.recorded h₀ hr).made i hpos
        have ha := (Run.recorded h₀ hr).target i id₂ a hi₂
        have hagent := (hrec.target i id₂ a hi₂.mono).symm.trans (hrec.target i id agent hi)
        obtain rfl : agent' = agent := htarget.symm.trans (ha.trans hagent)
        exact ⟨⟨rBps, ing, surv, failed, hc⟩, hpaid⟩

end Attribution

namespace Demo

/-- An injection of duel 1, first unreported, and reported in duel 2 of the same agents. -/
def misattributed : List (Msg × Call) :=
  funding ++ [(.of 0xDA 1, .registerAgent 0xA1),
    (.of 0xDB 1, .registerAgent 0xA2),
    (.of 0xBEEF 2, .createDuel 0xA1 0xA2 10 10),
    (.of 0xE2 13, .injectChaos 1 0xA1 0),
    (.of 0xE1 22, .resolve 1),
    (.of 0xDA 23, .registerAgent 0xA1),
    (.of 0xDB 23, .registerAgent 0xA2),
    (.of 0xBEEF 24, .createDuel 0xA1 0xA2 10 10),
    (.of 0xBEEF 35, .reportCall 2 0xA1 1 0 true false false)]

/-- The escrow of duel 1 ends up in the prize pool of duel 2. -/
theorem escrow_misattributed : ∃ tr s, Run config start tr s ∧ Injected tr 1 1 0xA1 ∧
    s.prizePool 2 = 450000 ∧ ¬ Attributed config tr := by
  have h : (play config start misattributed).map (fun r => (r.2.prizePool 2,
      r.1.any fun st => decide (st.ev.call = .injectChaos 1 0xA1 0 ∧ st.ev.ret = 1),
      r.1.any fun st => decide
        (st.ev.call = .reportCall 2 0xA1 1 0 true false false ∧ Settles st 1))) =
      some (450000, true, true) := by decide +kernel
  obtain ⟨r, hr, hv⟩ := Option.map_eq_some_iff.mp h
  simp only [Prod.mk.injEq, List.any_eq_true, decide_eq_true_eq] at hv
  obtain ⟨hpool, ⟨st, hm, hc, hret⟩, st', hm', hc', hs⟩ := hv
  have hi : Injected r.1 1 1 0xA1 := ⟨st, hm, 0, hc, hret⟩
  refine ⟨r.1, r.2, Run.of_play hr, hi, hpool, fun hatt => ?_⟩
  obtain ⟨⟨_, _, _, _, hown⟩, -⟩ := hatt.own 1 1 0xA1 hi st' hm' hs
  rw [hc'] at hown
  cases hown

/-- The injection of duel 1 is reported in duel 1. -/
def attributed : List (Msg × Call) :=
  duel ++ [(.of 0xBEEF 14, .reportCall 1 0xA1 1 0 true true false)]

/-- The call names injection 1 in duel 1, if it reports. -/
def reportsFirst : Call → Bool
  | .reportCall id _ i _ _ _ _ => decide (id = 1 ∧ i = 1)
  | _ => true

theorem duel_attributed : ∃ tr s, Run config start tr s ∧ Injected tr 1 1 0xA1 ∧
    s.injectionEscrows 1 = 0 ∧ Attributed config tr := by
  have h : (play config start attributed).map (fun r => (r.2.injectionEscrows 1,
      r.1.any fun st => decide (st.ev.call = .injectChaos 1 0xA1 0 ∧ st.ev.ret = 1),
      r.1.all fun st => reportsFirst st.ev.call)) = some (0, true, true) := by decide +kernel
  obtain ⟨r, hr, hv⟩ := Option.map_eq_some_iff.mp h
  simp only [Prod.mk.injEq, List.any_eq_true, List.all_eq_true, decide_eq_true_eq] at hv
  obtain ⟨hesc, ⟨st, hm, hc, hret⟩, hall⟩ := hv
  have hi : Injected r.1 1 1 0xA1 := ⟨st, hm, 0, hc, hret⟩
  have hrun := Run.of_play hr
  refine ⟨r.1, r.2, hrun, hi, hesc, (attributed_iff deployed hrun).mpr ?_⟩
  intro st' hm' id agent i rBps ing surv failed hc' _
  have hone := hall st' hm'
  rw [hc'] at hone
  obtain ⟨rfl, rfl⟩ : id = 1 ∧ i = 1 := by simpa [reportsFirst] using hone
  exact ⟨0xA1, hi⟩

end Demo

end Colosseum
end Arcane
