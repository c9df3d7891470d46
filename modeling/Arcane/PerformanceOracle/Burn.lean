import Arcane.PerformanceOracle.Backing
import Mathlib.Algebra.BigOperators.Ring.List

/-!
# One verdict, one double-burn

A resolution carries out the verdict at the price that Pyth answered and nothing else
(`Resolution`), and it is the only one of its advice (`Run.resolved_once`). No other call of the
two contracts sends anything to the burn address, so what the vault burned in a run is twice the
amounts of the advices resolved as slashed (`Run.burned_eq`).
-/

namespace Arcane
namespace PerformanceOracle

open Evm
open BondVault (burnAddress)

/-- What the vault sent to the burn address in the step: how much that account gained in a call of
the two contracts. A call on the token itself is another account's own. -/
def burned (st : Trace.Step State Event) : ℕ :=
  match st.ev.call with
  | .vault (.bondToken _) => 0
  | _ => st.post.vault.bondToken.balanceOf burnAddress -
      st.pre.vault.bondToken.balanceOf burnAddress

/-- The amount of the advice that the step resolved as slashed. -/
def slashedAmount (st : Trace.Step State Event) : ℕ :=
  match st.ev.call with
  | .resolve agent _ =>
    if (st.post.advice agent).slashed = true then (st.pre.advice agent).slashAmount else 0
  | _ => 0

/-- The step resolved the open advice of the agent, at the price that Pyth answered: it burned
twice its amount or it approved the release, as the verdict was. -/
structure Resolution (O : Config) (st : Trace.Step State Event) (agent : Address)
    (priceUpdate : List ByteArray) : Prop where
  open_ : (st.pre.advice agent).Open
  advice : ∃ p1, st.ev.env.freshPrice priceUpdate (st.pre.advice agent).feedId = some p1 ∧
    verdict (st.pre.advice agent) p1 = .ok (st.post.advice agent).slashed
  resolved : st.post.advice agent = { st.pre.advice agent with
    resolved := true, slashed := (st.post.advice agent).slashed }
  otherAdvice : ∀ a, a ≠ agent → st.post.advice a = st.pre.advice a
  slash : (st.post.advice agent).slashed = true →
    DoubleBurn O st.pre.vault st.post.vault agent (st.pre.advice agent).slashAmount
  pass : (st.post.advice agent).slashed = false → Passed st.pre.vault st.post.vault agent

section

variable {O : Config} {s s₀ s' : State} {e : Event} {tr : List (Trace.Step State Event)}
variable {agent : Address}

theorem Step.resolution (hO : O.Distinct) (hburn : O.vault.self ≠ burnAddress)
    (hok : ∀ a, (s.advice a).Ok) (hst : Step O s e s') {priceUpdate : List ByteArray}
    (hc : e.call = .resolve agent priceUpdate) :
    Resolution O ⟨s, e, s'⟩ agent priceUpdate := by
  cases hst.effect with
  | vault c v hc' _ => simp [hc] at hc'
  | record a b hb _ _ _ _ _ => simp [Event.Records, hc] at hb
  | resolve a pu p1 slashed v hc' hex hopen hp hv hs =>
    obtain ⟨rfl, rfl⟩ := Call.resolve.inj (hc.symm.trans hc')
    have hsl : (Function.update s.advice agent ((s.advice agent).settled slashed) agent).slashed =
        slashed := by
      simp [Advice.settled, (hok agent).unslashed hopen]
    refine ⟨⟨hex, hopen⟩, ⟨p1, hp, ?_⟩, ?_, fun a ha => Function.update_of_ne ha _ _, ?_, ?_⟩
    · dsimp only
      rw [hsl]
      exact hv
    · dsimp only
      rw [hsl]
      simp [Advice.settled, (hok agent).unslashed hopen]
    · intro htrue
      obtain rfl := hsl.symm.trans htrue
      exact settle_slash hO hburn hs
    · intro hfalse
      obtain rfl := hsl.symm.trans hfalse
      exact settle_pass hs

/-! ## At most once -/

/-- A resolution takes an open advice and leaves it resolved. -/
theorem Step.resolves (hst : Step O s e s') (hres : e.Resolves agent) :
    (s.advice agent).Open ∧ (s'.advice agent).resolved = true := by
  cases hst.effect with
  | vault c v hc _ => simp [Event.Resolves, hc] at hres
  | record a b hb _ _ _ _ _ => exact absurd hres (hb.not_resolves agent)
  | resolve a priceUpdate p1 slashed v hc hex hopen _ _ _ =>
    simp only [Event.Resolves, hc] at hres
    subst hres
    exact ⟨⟨hex, hopen⟩, by simp [Advice.settled]⟩

/-- A resolved advice stays so until the next one is recorded. -/
theorem Run.stays_resolved (hr : Trace.Run (Step O) s₀ tr s)
    (h₀ : (s₀.advice agent).resolved = true) (hrec : ∀ x ∈ tr, ¬ x.ev.Records agent) :
    (s.advice agent).resolved = true := by
  refine (hr.restrict (P := fun x => ¬ x.ev.Records agent) hrec).invariant
    (I := fun s => (s.advice agent).resolved = true) h₀ ?_
  rintro s e s' hresolved ⟨hst, hn⟩
  by_cases hres : e.Resolves agent
  · exact (Step.resolves hst hres).2
  · rw [hst.effect.advice_eq hn hres]
    exact hresolved

/-- Between two resolutions for one agent there is a new advice. -/
theorem Run.resolved_once {tr₁ tr₂ tr₃ : List (Trace.Step State Event)}
    {x y : Trace.Step State Event} (hr : Run O s₀ (tr₁ ++ x :: tr₂ ++ y :: tr₃) s)
    (hx : x.ev.Resolves agent) (hy : y.ev.Resolves agent) : ∃ z ∈ tr₂, z.ev.Records agent := by
  by_contra hnone
  obtain ⟨hpre, hsty, -⟩ := hr.split
  obtain ⟨-, hstx, hmid⟩ := hpre.split
  have hstill := Run.stays_resolved hmid (Step.resolves hstx hx).2 fun z hz hrec =>
    hnone ⟨z, hz, hrec⟩
  rw [(Step.resolves hsty hy).1.unresolved] at hstill
  cases hstill

/-! ## The burned money -/

theorem burned_of_vault_eq {st : Trace.Step State Event} (h : st.post.vault = st.pre.vault) :
    burned st = 0 := by
  unfold burned
  split
  · rfl
  · rw [h, Nat.sub_self]

theorem slashedAmount_of_not_resolves {st : Trace.Step State Event}
    (h : ∀ a, ¬ st.ev.Resolves a) : slashedAmount st = 0 := by
  unfold slashedAmount
  split
  next a pu hc => exact absurd (by simp [Event.Resolves, hc]) (h a)
  · rfl

/-- A call on the vault burns nothing while the oracle is the only slasher. -/
theorem Step.vault_burned (hv : BondVault.Solvent O.vault s.vault)
    (hwired : s.vault.oracle = O.self) (hl : Legal O e.msg) {c : BondVault.Call}
    {v : BondVault.State} (hc : e.call = .vault c)
    (hst : BondVault.Step O.vault s.vault ⟨e.msg, e.env.checker, c⟩ v) :
    burned ⟨s, e, { s with vault := v }⟩ = 0 := by
  unfold burned
  rw [hc]
  by_cases htoken : ∃ op, c = .bondToken op
  · obtain ⟨op, rfl⟩ := htoken
    rfl
  · have hslash : ∀ a n, c ≠ .slash a n := by
      rintro a n rfl
      have hsl := hst.effect.slashed hv.wf.self_ne_burn rfl
      exact hl.2 (hsl.slasher.trans hwired)
    have hsame := hst.effect.burn_eq hv.wf hst.1 hslash fun op hop => htoken ⟨op, hop⟩
    split
    · rfl
    · rw [hsame, Nat.sub_self]

theorem Step.burned_eq (hv : BondVault.Solvent O.vault s.vault) (hO : O.Distinct)
    (hok : ∀ a, (s.advice a).Ok) (hwired : s.vault.oracle = O.self) (hst : Step O s e s') :
    burned ⟨s, e, s'⟩ = 2 * slashedAmount ⟨s, e, s'⟩ := by
  cases hst.effect with
  | vault c v hc hvst =>
    rw [Step.vault_burned hv hwired hst.1 hc hvst,
      slashedAmount_of_not_resolves fun a => by simp [Event.Resolves, hc]]
  | record a b hb _ _ _ _ _ =>
    rw [burned_of_vault_eq rfl, slashedAmount_of_not_resolves hb.not_resolves]
  | resolve a pu p1 slashed v hc _ _ _ _ _ =>
    have hres := Step.resolution hO hv.wf.self_ne_burn hok hst hc
    unfold burned slashedAmount
    simp only [hc]
    split
    · rename_i hs
      have hb := (hres.slash hs).burned
      dsimp only at hb
      omega
    · rename_i hs
      rw [(hres.pass (Bool.eq_false_iff.mpr hs)).bondToken, Nat.sub_self]

/-- The vault burned twice the amounts of the advices resolved as slashed. -/
theorem Run.burned_eq (h₀ : Deployed O s₀) (hwired : ∀ st ∈ tr, st.pre.vault.oracle = O.self)
    (hr : Run O s₀ tr s) : (tr.map burned).sum = 2 * (tr.map slashedAmount).sum := by
  have hstep : ∀ st ∈ tr, burned st = 2 * slashedAmount st := by
    intro st hst
    obtain ⟨tr₁, tr₂, -, hpre, hstep, -⟩ := hr.of_mem hst
    exact Step.burned_eq (Run.solvent h₀ hpre) h₀.distinct (Run.adviceOk h₀ hpre)
      (hwired st hst) hstep
  rw [List.map_congr_left hstep, List.sum_map_mul_left tr slashedAmount 2]

/-- Every advice is resolved at most once, each resolution does what its verdict says and nothing
else, a reverted call changes nothing, and what the vault burned is twice what was slashed. -/
theorem verdict_burns_once (h₀ : Deployed O s₀)
    (hwired : ∀ st ∈ tr, st.pre.vault.oracle = O.self) (hr : Run O s₀ tr s) :
    (∀ tr₁ x tr₂ y tr₃ agent, tr = tr₁ ++ x :: tr₂ ++ y :: tr₃ → x.ev.Resolves agent →
        y.ev.Resolves agent → ∃ z ∈ tr₂, z.ev.Records agent) ∧
      (∀ st ∈ tr, ∀ agent priceUpdate, st.ev.call = .resolve agent priceUpdate →
        Resolution O st agent priceUpdate) ∧
      (∀ e agent priceUpdate r, e.call = .resolve agent priceUpdate → exec O s e = .error r →
        transact (exec O) s e = s) ∧
      (tr.map burned).sum = 2 * (tr.map slashedAmount).sum := by
  refine ⟨?_, fun st hst agent pu hc => ?_, fun e agent pu r _ hx => transact_error hx,
    Run.burned_eq h₀ hwired hr⟩
  · rintro tr₁ x tr₂ y tr₃ agent rfl hx hy
    exact Run.resolved_once hr hx hy
  · obtain ⟨tr₁, tr₂, -, hpre, hstep, -⟩ := hr.of_mem hst
    exact Step.resolution h₀.distinct h₀.vault.self_ne_burn (Run.adviceOk h₀ hpre) hstep hc

end

namespace Demo

/-- An advice that fails, and one that passes. -/
def verdicts : List Event :=
  recorded 1000 ++ [call 0xE1 62 900 (.resolve 0xA1 []),
    call 0xBEEF 70 1000 (.recordAdvice 0xA1 7 (-1) 60 100 20 []),
    call 0xE1 130 900 (.resolve 0xA1 [])]

/-- The failed advice burned both halves of its amount, and nothing else was burned. -/
theorem verdicts_burned : ∃ tr s, Run config start tr s ∧ tr.length = 8 ∧
    (tr.map slashedAmount).sum = 20 ∧ (tr.map burned).sum = 40 := by
  have h : (play config start verdicts).map (fun r => (r.1.length,
      r.1.all fun st => st.pre.vault.oracle = config.self, (r.1.map slashedAmount).sum)) =
      some (8, true, 20) := by decide +kernel
  obtain ⟨r, hr, hv⟩ := Option.map_eq_some_iff.mp h
  simp only [Prod.mk.injEq, List.all_eq_true, decide_eq_true_eq] at hv
  obtain ⟨hlen, hwired, hsum⟩ := hv
  have hrun := Evm.Run.of_play hr
  have hburned := (verdict_burns_once deployed hwired hrun).2.2.2
  rw [hsum] at hburned
  exact ⟨r.1, r.2, hrun, hlen, hsum, hburned⟩

end Demo

end PerformanceOracle
end Arcane
