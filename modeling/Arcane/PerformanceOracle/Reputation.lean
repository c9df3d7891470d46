import Arcane.PerformanceOracle.Burn

/-!
# The record of an agent

The `AdviceResolved` events of the oracle, from which the registry service and the web app count
wins and losses.

* `emitted`: the event of an accepted call; `Resolution.emitted`: that of a resolution.
* `Run.balanced`: what the events say of an agent after any run. Each recorded advice is a win, a
  loss or still open.
* `Run.resolution_of_event`: each win and each loss is a verdict that was carried out.
-/

namespace Arcane
namespace PerformanceOracle

open Evm

structure AdviceResolved where
  agent : Address
  p0 : Int64
  p1 : Int64
  rBps : ℤ
  slashed : Bool
  deriving DecidableEq

/-- The event that the accepted call emits. -/
def emitted (st : Trace.Step State Event) : Option AdviceResolved :=
  match st.ev.call with
  | .resolve agent priceUpdate => do
    let a := st.pre.advice agent
    let p1 ← st.ev.env.freshPrice priceUpdate a.feedId
    let rBps ← (returnBps a.p0 p1.price a.direction).toOption
    let slashed ← (shouldSlash rBps a.slashThresholdBps p1.conf a.p0).toOption
    return { agent, p0 := a.p0, p1 := p1.price, rBps, slashed }
  | _ => none

/-- The events of a run. -/
def events (tr : List (Trace.Step State Event)) : List AdviceResolved := tr.filterMap emitted

/-- The resolutions of an agent's advices, with a slash or without. -/
def resolutions (agent : Address) (slashed : Bool) (l : List AdviceResolved) : ℕ :=
  l.countP fun x => x.agent = agent ∧ x.slashed = slashed

def wins (agent : Address) (l : List AdviceResolved) : ℕ := resolutions agent false l

def losses (agent : Address) (l : List AdviceResolved) : ℕ := resolutions agent true l

/-- How many advices of the agent the calls record. -/
def recorded (agent : Address) (tr : List (Trace.Step State Event)) : ℕ :=
  tr.countP fun st => st.ev.Records agent

instance (a : Advice) : Decidable a.Open :=
  decidable_of_iff (a.exists_ = true ∧ a.resolved = false)
    ⟨fun h => ⟨h.1, h.2⟩, fun h => ⟨h.recorded, h.unresolved⟩⟩

section

variable {O : Config} {s s₀ s' : State} {e : Event} {tr : List (Trace.Step State Event)}
  {st : Trace.Step State Event} {agent : Address} {priceUpdate : List ByteArray}

theorem emitted_of_not_resolves (h : ∀ a, ¬ st.ev.Resolves a) : emitted st = none := by
  unfold emitted
  split
  next a pu hc => exact absurd (by simp [Event.Resolves, hc]) (h a)
  · rfl

/-- Only a resolution emits the event. -/
theorem call_of_emitted {x : AdviceResolved} (h : emitted st = some x) :
    ∃ priceUpdate, st.ev.call = .resolve x.agent priceUpdate := by
  unfold emitted at h
  split at h
  next a pu hc =>
    simp only [Option.bind_eq_bind, Option.bind_eq_some_iff, Option.pure_def,
      Option.some.injEq] at h
    obtain ⟨p1, -, rBps, -, slashed, -, rfl⟩ := h
    exact ⟨pu, hc⟩
  · cases h

/-- A resolution emits the prices, the return between them and the verdict. -/
theorem Resolution.emitted (h : Resolution O st agent priceUpdate)
    (hc : st.ev.call = .resolve agent priceUpdate) :
    ∃ p1, st.ev.env.freshPrice priceUpdate (st.pre.advice agent).feedId = some p1 ∧
      emitted st = some {
        agent
        p0 := (st.pre.advice agent).p0
        p1 := p1.price
        rBps := (st.pre.advice agent).returnBps p1
        slashed := (st.post.advice agent).slashed } := by
  obtain ⟨p1, hp, hv⟩ := h.advice
  simp only [verdict, bind_ok] at hv
  obtain ⟨rBps, hr, hs⟩ := hv
  have heq : rBps = (st.pre.advice agent).returnBps p1 := (returnBps_ok.mp hr).2
  refine ⟨p1, hp, ?_⟩
  simp only [PerformanceOracle.emitted, hc, hp, hr, hs, Except.toOption, Option.bind_eq_bind,
    Option.bind_some, Option.pure_def]
  rw [heq]

theorem fits_of_returnBps {p0 p1 : Int64} {direction : Int8} {rBps : ℤ}
    (h : returnBps p0 p1 direction = .ok rBps) : I256.Fits rBps := by
  simp only [returnBps, bind_ok, I256.div_ok] at h
  obtain ⟨denom, _, delta, _, directed, _, scaled, _, hfits, rfl⟩ := h
  exact hfits

theorem fits_of_emitted {x : AdviceResolved} (h : emitted st = some x) : I256.Fits x.rBps := by
  obtain ⟨pu, hc⟩ := call_of_emitted h
  simp only [PerformanceOracle.emitted, hc, Option.bind_eq_bind, Option.bind_eq_some_iff,
    Option.pure_def, Option.some.injEq, toOption_eq_some] at h
  obtain ⟨p1, -, rBps, hr, slashed, -, hx⟩ := h
  rw [← hx]
  exact fits_of_returnBps hr

theorem events_concat (tr : List (Trace.Step State Event)) (st : Trace.Step State Event) :
    events (tr ++ [st]) = events tr ++ (emitted st).toList := by
  rw [events, List.filterMap_append, events]
  cases h : PerformanceOracle.emitted st <;> simp [h]

theorem wins_append (l l' : List AdviceResolved) :
    wins agent (l ++ l') = wins agent l + wins agent l' := List.countP_append

theorem losses_append (l l' : List AdviceResolved) :
    losses agent (l ++ l') = losses agent l + losses agent l' := List.countP_append

theorem recorded_concat (tr : List (Trace.Step State Event)) (st : Trace.Step State Event) :
    recorded agent (tr ++ [st]) = recorded agent tr + if st.ev.Records agent then 1 else 0 := by
  rw [recorded, List.countP_append, List.countP_singleton]
  simp only [decide_eq_true_eq]
  rfl

/-- The record that the events keep: each recorded advice is a win, a loss or still open. -/
def Balanced (agent : Address) (tr : List (Trace.Step State Event)) (s : State) : Prop :=
  wins agent (events tr) + losses agent (events tr) +
    (if (s.advice agent).Open then 1 else 0) = recorded agent tr

/-- An advice is recorded where none is open. -/
theorem Step.not_open (hst : Step O s e s') (hrec : e.Records agent) :
    ¬ (s.advice agent).Open := by
  intro hopen
  cases hst.effect with
  | vault c v hc _ => simp [Event.Records, hc] at hrec
  | record a b hb hclosed _ _ _ _ =>
    obtain rfl := hb.eq hrec
    exact hclosed ⟨hopen.recorded, hopen.unresolved⟩
  | resolve a pu p1 slashed v hc _ _ _ _ _ => simp [Event.Records, hc] at hrec

theorem Event.Resolves.call {a : Address} (h : e.Resolves a) :
    ∃ priceUpdate, e.call = .resolve a priceUpdate := by
  unfold Event.Resolves at h
  split at h
  next b pu hc =>
    subst h
    exact ⟨pu, hc⟩
  · exact h.elim

/-- One event more or none, with an advice less or none. -/
theorem Balanced.step (h : Balanced agent tr s) (hO : O.Distinct)
    (hv : BondVault.Solvent O.vault s.vault) (hok : ∀ a, (s.advice a).Ok) (hst : Step O s e s') :
    Balanced agent (tr ++ [⟨s, e, s'⟩]) s' := by
  unfold Balanced at h ⊢
  rw [events_concat, wins_append, losses_append, recorded_concat]
  by_cases hrec : e.Records agent
  · have hfresh := Step.not_open hst hrec
    have hnone : emitted ⟨s, e, s'⟩ = none := emitted_of_not_resolves hrec.not_resolves
    rw [hnone, if_pos hrec, if_pos (Step.records hst hrec).1]
    rw [if_neg hfresh] at h
    simpa [wins, losses, resolutions] using h
  · rw [if_neg hrec]
    by_cases hres : e.Resolves agent
    · obtain ⟨hopen, hclosed⟩ := Step.resolves hst hres
      have hnot : ¬ (s'.advice agent).Open := fun ho => by
        rw [ho.unresolved] at hclosed
        cases hclosed
      obtain ⟨pu, hc⟩ := hres.call
      obtain ⟨p1, -, hem⟩ := (Step.resolution hO hv.wf.self_ne_burn hok hst hc).emitted hc
      rw [hem, if_neg hnot]
      rw [if_pos hopen] at h
      cases hs : (s'.advice agent).slashed <;>
        simp [wins, losses, resolutions] at h ⊢ <;> omega
    · rw [hst.effect.advice_eq hrec hres]
      have hother : wins agent (PerformanceOracle.emitted ⟨s, e, s'⟩).toList = 0 ∧
          losses agent (PerformanceOracle.emitted ⟨s, e, s'⟩).toList = 0 := by
        cases hem : PerformanceOracle.emitted ⟨s, e, s'⟩ with
        | none => exact ⟨rfl, rfl⟩
        | some x =>
          have hne : x.agent ≠ agent := by
            rintro rfl
            obtain ⟨pu, hc⟩ := call_of_emitted hem
            exact hres (by simp only [Event.Resolves, show e.call = _ from hc])
          simp [wins, losses, resolutions, hne]
      rw [hother.1, hother.2]
      exact h

theorem Run.balanced (h₀ : Deployed O s₀) (hr : Run O s₀ tr s) : Balanced agent tr s := by
  refine hr.history (P := fun tr s => Balanced agent tr s) ?_ fun tr s e s' hpre h hst =>
    h.step h₀.distinct (Run.solvent h₀ hpre) (Run.adviceOk h₀ hpre) hst
  have hd := h₀.deploy
  simp only [PerformanceOracle.deploy, bind_ok, require_ok, pure_ok] at hd
  obtain ⟨_, -, _, -, _, -, _, -, hs⟩ := hd
  have hopen : ¬ (s₀.advice agent).Open := by
    rw [← hs]
    intro h
    cases h.recorded
  simp [Balanced, events, wins, losses, resolutions, recorded, hopen]

/-- Each event is that of one resolution. -/
theorem Run.resolution_of_event (h₀ : Deployed O s₀) (hr : Run O s₀ tr s) {x : AdviceResolved}
    (hx : x ∈ events tr) : ∃ st ∈ tr, ∃ priceUpdate, Resolution O st x.agent priceUpdate ∧
      (st.post.advice x.agent).slashed = x.slashed := by
  obtain ⟨st, hst, hem⟩ := List.mem_filterMap.mp hx
  obtain ⟨pu, hc⟩ := call_of_emitted hem
  obtain ⟨tr₁, tr₂, -, hpre, hstep, -⟩ := hr.of_mem hst
  have hres := Step.resolution h₀.distinct h₀.vault.self_ne_burn (Run.adviceOk h₀ hpre) hstep hc
  obtain ⟨p1, -, hem'⟩ := hres.emitted hc
  rw [hem, Option.some.injEq] at hem'
  exact ⟨st, hst, pu, hres, by rw [hem']⟩

end

end PerformanceOracle
end Arcane
