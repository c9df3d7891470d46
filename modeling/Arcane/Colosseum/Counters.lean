import Arcane.Colosseum.WellFormed
import Mathlib.Algebra.Group.Prod
import Mathlib.Algebra.BigOperators.Group.List.Basic

/-!
# The counters of an agent and its accepted scores

`reportCall` is the only function that counts. After every run, the counters of an agent are the
sums over the calls of it that were accepted (`counters_eq_tally`).
-/

namespace Arcane
namespace Colosseum

open Evm

/-- What a call of `reportCall` says of an agent. -/
structure Score where
  agent : Address
  rBps : ℤ
  ingested : Bool
  survived : Bool
  deriving DecidableEq

def Call.score : Call → Option Score
  | .reportCall _ agent _ rBps ing surv _ => some ⟨agent, rBps, ing, surv⟩
  | _ => none

/-- The scores of the calls that were accepted. -/
def accepted (tr : List (Trace.Step State Event)) : List Score := tr.filterMap (·.ev.call.score)

/-- The sums over scores: basis points, injections that were ingested, those that were survived. -/
abbrev Tally := ℤ × ℕ × ℕ

/-- What one score adds to the sums of an agent. -/
def Score.tally (agent : Address) (x : Score) : Tally :=
  if x.agent = agent then
    (x.rBps, if x.ingested then 1 else 0, if x.ingested && x.survived then 1 else 0)
  else 0

/-- The sums over the scores of an agent. -/
def tally (agent : Address) (xs : List Score) : Tally := (xs.map (·.tally agent)).sum

/-- `injectionsIngested` and `survivedInjections` of an agent. -/
def State.counters (s : State) (agent : Address) : ℕ × ℕ :=
  (s.injectionsIngested agent, s.survivedInjections agent)

section Tally

variable {agent : Address} {xs ys : List Score} {x : Score}

@[simp]
theorem tally_nil : tally agent [] = 0 := rfl

@[simp]
theorem tally_cons : tally agent (x :: xs) = x.tally agent + tally agent xs := List.sum_cons

@[simp]
theorem tally_append : tally agent (xs ++ ys) = tally agent xs + tally agent ys := by
  rw [tally, List.map_append, List.sum_append, tally, tally]

theorem tally_eq_zero (h : ∀ x ∈ xs, x.agent ≠ agent) : tally agent xs = 0 := by
  induction xs with
  | nil => rfl
  | cons x xs ih =>
    rw [tally_cons, ih fun y hy => h y (List.mem_cons_of_mem _ hy), Score.tally,
      if_neg (h x List.mem_cons_self), add_zero]

end Tally

section Step

variable {C : Config} {s₀ s s' : State} {m : Msg} {e : Event} {tr : List (Trace.Step State Event)}
  {agent a : Address}

theorem counters_recordIngestion {ing surv : Bool} (h : recordIngestion s agent ing surv = .ok s') :
    s'.counters a = s.counters a +
      if agent = a then (if ing then 1 else 0, if ing && surv then 1 else 0) else 0 := by
  unfold recordIngestion at h
  cases ing with
  | false =>
    obtain rfl := pure_ok.mp h
    simp
  | true =>
    simp only [if_true, bind_ok, U256.add_ok] at h
    obtain ⟨_, ⟨-, rfl⟩, h⟩ := h
    cases surv with
    | false =>
      obtain rfl := pure_ok.mp h
      by_cases ha : agent = a
      · subst ha
        simp [State.counters]
      · simp [State.counters, ha, Function.update_of_ne (Ne.symm ha)]
    | true =>
      simp only [if_true, bind_ok, U256.add_ok, pure_ok] at h
      obtain ⟨_, ⟨-, rfl⟩, rfl⟩ := h
      by_cases ha : agent = a
      · subst ha
        simp [State.counters]
      · simp [State.counters, ha, Function.update_of_ne (Ne.symm ha)]

theorem counters_recordFailure {failed : Bool} (h : recordFailure s agent failed = .ok s') :
    s'.counters a = s.counters a := by
  obtain ⟨failures, rfl⟩ := recordFailure_ok h
  rfl

theorem counters_settleBounty {id i : ℕ} {survived : Bool}
    (h : settleBounty C s id agent i survived = .ok s') : s'.counters a = s.counters a := by
  cases settleBounty_ok h <;> rfl

theorem counters_reportCall {id i : ℕ} {rBps : ℤ} {ing surv failed : Bool}
    (h : reportCall C s m id agent i rBps ing surv failed = .ok s') :
    s'.counters a = s.counters a + (Score.tally a ⟨agent, rBps, ing, surv⟩).2 := by
  simp only [reportCall, bind_ok, revertIf_ok] at h
  obtain ⟨_, -, _, -, _, -, d, -, s₁, hi, s₂, hf, hs⟩ := h
  rw [counters_settleBounty hs, counters_recordFailure hf, counters_recordIngestion hi, Score.tally]
  split <;> rfl

theorem Step.counters_of_score (hwf : WellFormed C s) (h : Step C s e s')
    (hscore : e.call.score = none) : s'.counters a = s.counters a := by
  cases h.effect hwf
  case report hcall _ _ _ _ =>
    rw [hcall] at hscore
    cases hscore
  all_goals rfl

/-- A step counts what its call says, and no call but `reportCall` says anything. -/
theorem Step.counters (hwf : WellFormed C s) (h : Step C s e s') :
    s'.counters a = s.counters a + (tally a e.call.score.toList).2 := by
  cases hcall : e.call with
  | reportCall id agent i rBps ing surv failed =>
    have hexec := h.2
    rw [hcall] at hexec
    rw [counters_reportCall (void_ok.mp hexec).1, Call.score, Option.toList_some, tally_cons,
      tally_nil, add_zero]
  | _ => exact h.counters_of_score hwf (by rw [hcall]; rfl)

theorem accepted_append {tr' : List (Trace.Step State Event)} :
    accepted (tr ++ tr') = accepted tr ++ accepted tr' := List.filterMap_append

/-- The counters of an agent are the sums over its scores that were accepted. -/
theorem counters_eq_tally (h₀ : Deployed C s₀) (h : Run C s₀ tr s) :
    s.counters agent = (tally agent (accepted tr)).2 := by
  refine h.history (P := fun tr s => s.counters agent = (tally agent (accepted tr)).2) ?_ ?_
  · rw [h₀.eq_initial]
    rfl
  · intro tr s e s' hrun ih hst
    rw [hst.counters (Run.wellFormed h₀ hrun), ih, accepted_append, tally_append, Prod.snd_add]
    cases hscore : e.call.score <;> simp [accepted, hscore]

end Step

end Colosseum
end Arcane
