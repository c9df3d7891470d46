import Arcane.PerformanceOracle.Settlement
import Arcane.PerformanceOracle.Verdict

/-!
# What one call does to the two contracts

`Effect O s e s'` lists what an accepted call can do: a step of the vault, a new advice, or a
resolution with its verdict at the price that Pyth answered. Every step is a run of the vault
(`Step.vaultRun`), so the vault's invariants hold here too (`Run.solvent`).

`Advice.Ok` is what holds of the oracle's own storage: an advice has an amount to slash, and one
that is not yet resolved was not slashed.
-/

namespace Arcane
namespace PerformanceOracle

open Evm

/-- The call records an advice of the agent. -/
def Event.Records (e : Event) (a : Address) : Prop :=
  match e.call with
  | .recordAdvice agent _ _ _ _ _ _ => agent = a
  | _ => False

/-- The call resolves the advice of the agent. -/
def Event.Resolves (e : Event) (a : Address) : Prop :=
  match e.call with
  | .resolve agent _ => agent = a
  | _ => False

instance (e : Event) (a : Address) : Decidable (e.Records a) := by
  unfold Event.Records
  split <;> infer_instance

instance (e : Event) (a : Address) : Decidable (e.Resolves a) := by
  unfold Event.Resolves
  split <;> infer_instance

/-- A call records one agent's advice. -/
theorem Event.Records.eq {e : Event} {a b : Address} (ha : e.Records a) (hb : e.Records b) :
    a = b := by
  unfold Event.Records at ha hb
  cases hc : e.call with
  | recordAdvice agent feedId direction horizonSecs threshold slashAmount priceUpdate =>
    rw [hc] at ha hb
    exact ha.symm.trans hb
  | vault c => simp [hc] at ha
  | resolve agent priceUpdate => simp [hc] at ha

theorem Event.Records.not_resolves {e : Event} {a : Address} (h : e.Records a) (b : Address) :
    ¬ e.Resolves b := by
  unfold Event.Records at h
  unfold Event.Resolves
  cases hc : e.call with
  | recordAdvice agent feedId direction horizonSecs threshold slashAmount priceUpdate => exact id
  | vault c => exact id
  | resolve agent priceUpdate => simp [hc] at h

/-- The price that Pyth answers after the update. -/
def Env.freshPrice (env : Env) (priceUpdate : List ByteArray) (feedId : FeedId) :
    Option Price := do
  let fee ← env.pyth.getUpdateFee priceUpdate
  let prices ← env.pyth.updatePriceFeeds priceUpdate fee
  prices feedId

/-- The advice after its resolution. -/
def Advice.settled (a : Advice) (slashed : Bool) : Advice :=
  { a with resolved := true, slashed := a.slashed || slashed }

inductive Effect (O : Config) (s : State) (e : Event) : State → Prop
  | vault (c : BondVault.Call) (v : BondVault.State) :
      e.call = .vault c →
      BondVault.Step O.vault s.vault ⟨e.msg, e.env.checker, c⟩ v →
      Effect O s e { s with vault := v }
  | record (agent : Address) (a : Advice) :
      e.Records agent →
      ¬ ((s.advice agent).exists_ = true ∧ (s.advice agent).resolved = false) →
      a.slashAmount ≠ 0 →
      a.exists_ = true → a.resolved = false → a.slashed = false →
      Effect O s e { s with advice := Function.update s.advice agent a }
  | resolve (agent : Address) (priceUpdate : List ByteArray) (p1 : Price) (slashed : Bool)
      (v : BondVault.State) :
      e.call = .resolve agent priceUpdate →
      (s.advice agent).exists_ = true → (s.advice agent).resolved = false →
      e.env.freshPrice priceUpdate (s.advice agent).feedId = some p1 →
      verdict (s.advice agent) p1 = .ok slashed →
      settle O s.vault e.msg agent (s.advice agent).slashAmount slashed = .ok v →
      Effect O s e {
        vault := v
        advice := Function.update s.advice agent ((s.advice agent).settled slashed) }

section

variable {O : Config} {s s₀ s' : State} {e : Event} {tr : List (Trace.Step State Event)}

theorem pushUpdate_ok {pyth : Pyth} {m : Msg} {priceUpdate : List ByteArray} {fee : ℕ}
    {prices : FeedId → Option Price} :
    pushUpdate pyth m priceUpdate = .ok (fee, prices) ↔
      pyth.getUpdateFee priceUpdate = some fee ∧ fee ≤ m.value ∧
        pyth.updatePriceFeeds priceUpdate fee = some prices := by
  simp only [pushUpdate, bind_ok, reply_ok, revertIf_ok, not_lt, pure_ok, Prod.mk.injEq]
  constructor
  · rintro ⟨_, hf, _, hle, _, hp, rfl, rfl⟩
    exact ⟨hf, hle, hp⟩
  · rintro ⟨hf, hle, hp⟩
    exact ⟨_, hf, (), hle, _, hp, rfl, rfl⟩

theorem recordAdvice_effect {agent : Address} {feedId : FeedId} {direction : Int8}
    {horizonSecs : UInt64} {threshold : UInt32} {slashAmount : ℕ} {priceUpdate : List ByteArray}
    (hc : e.call =
      .recordAdvice agent feedId direction horizonSecs threshold slashAmount priceUpdate)
    (h : recordAdvice O s e.msg e.env agent feedId direction horizonSecs threshold slashAmount
      priceUpdate = .ok s') : Effect O s e s' := by
  simp only [recordAdvice, bind_ok, revertIf_ok, pure_ok] at h
  obtain ⟨_, -, _, -, _, -, _, hne, _, hfresh, _, -, p, -, _, -, rfl⟩ := h
  exact .record agent _ (by simp [Event.Records, hc]) hfresh hne rfl rfl rfl

theorem resolve_effect {agent : Address} {priceUpdate : List ByteArray}
    (hc : e.call = .resolve agent priceUpdate)
    (h : resolve O s e.msg e.env agent priceUpdate = .ok s') : Effect O s e s' := by
  simp only [resolve, bind_ok, revertIf_ok, Bool.not_eq_false, Bool.not_eq_true, U256.add_ok,
    Prod.exists, pushUpdate_ok, reply_ok, pure_ok] at h
  obtain ⟨_, hex, _, hopen, _, -, _, -, fee, prices, ⟨hfee, -, hup⟩, p1, hp, _, -, slashed, hv, v,
    hs, _, -, rfl⟩ := h
  refine .resolve agent priceUpdate p1 slashed v hc hex hopen ?_ hv hs
  simp [Env.freshPrice, hfee, hup, hp]

/-- Every accepted call has one of the listed effects. -/
theorem Step.effect (h : Step O s e s') : Effect O s e s' := by
  obtain ⟨⟨hl, -⟩, h⟩ := h
  unfold exec at h
  split at h
  next c hc =>
    simp only [bind_ok, external_ok, pure_ok] at h
    obtain ⟨v, hv, rfl⟩ := h
    exact .vault c v hc ⟨hl, hv⟩
  next hc => exact recordAdvice_effect hc h
  next hc => exact resolve_effect hc h

/-! ## The vault under the oracle -/

theorem Deployed.distinct (h : Deployed O s) : O.Distinct := ⟨h.self_ne_vault, h.self_ne_burn⟩

/-- Every step is a run of the vault. -/
theorem Step.vaultRun (hO : O.Distinct) (h : Step O s e s') :
    ∃ tr, BondVault.Run O.vault s.vault tr s'.vault := by
  cases h.effect with
  | vault c v _ hv => exact ⟨_, Trace.Run.nil.snoc _ hv⟩
  | record agent a _ _ _ _ _ _ => exact ⟨[], .nil⟩
  | resolve agent priceUpdate p1 slashed v _ _ _ _ _ hs => exact settle_run hO hs

/-- A run of the two contracts is one of the vault. -/
theorem Run.vaultRun (h₀ : Deployed O s₀) (h : Run O s₀ tr s) :
    ∃ vtr, BondVault.Run O.vault s₀.vault vtr s.vault :=
  Trace.Run.simulate (f := State.vault) h fun _ _ _ hst => Step.vaultRun h₀.distinct hst

theorem Run.solvent (h₀ : Deployed O s₀) (h : Run O s₀ tr s) :
    BondVault.Solvent O.vault s.vault := by
  obtain ⟨vtr, hv⟩ := Run.vaultRun h₀ h
  exact BondVault.Run.solvent (.deployed h₀.vault) hv

/-! ## The oracle's own storage -/

structure Advice.Ok (a : Advice) : Prop where
  amount : a.exists_ = true → a.slashAmount ≠ 0
  unslashed : a.resolved = false → a.slashed = false

theorem Advice.Ok.settled {a : Advice} (h : a.Ok) (slashed : Bool) : (a.settled slashed).Ok :=
  ⟨h.amount, fun hr => by simp [Advice.settled] at hr⟩

theorem Advice.Ok.update {f : Address → Advice} {agent : Address} {a : Advice}
    (hf : ∀ x, (f x).Ok) (h : a.Ok) : ∀ x, (Function.update f agent a x).Ok :=
  (Function.forall_update_iff f fun _ b => b.Ok).mpr ⟨h, fun x _ => hf x⟩

theorem Effect.ok (h : ∀ a, (s.advice a).Ok) (he : Effect O s e s') : ∀ a, (s'.advice a).Ok := by
  cases he with
  | vault c v _ _ => exact h
  | record agent a _ _ hne _ _ hsl => exact Advice.Ok.update h ⟨fun _ => hne, fun _ => hsl⟩
  | resolve agent priceUpdate p1 slashed v _ _ _ _ _ _ =>
    exact Advice.Ok.update h ((h agent).settled slashed)

/-- Every advice in storage has an amount to slash, and was not slashed before its resolution. -/
theorem Run.adviceOk (h₀ : Deployed O s₀) (h : Run O s₀ tr s) : ∀ a, (s.advice a).Ok := by
  refine h.invariant (I := fun s => ∀ a, (s.advice a).Ok) ?_
    fun _ _ _ hs hst => (Step.effect hst).ok hs
  have hd := h₀.deploy
  simp only [PerformanceOracle.deploy, bind_ok, require_ok, pure_ok] at hd
  obtain ⟨_, -, _, -, _, -, _, -, hs⟩ := hd
  rw [← hs]
  exact fun _ => ⟨fun ha => absurd ha (by simp [Advice.empty]), fun _ => rfl⟩

/-- A call that neither records nor resolves the agent's advice leaves it alone. -/
theorem Effect.advice_eq {a : Address} (he : Effect O s e s') (hrec : ¬ e.Records a)
    (hres : ¬ e.Resolves a) : s'.advice a = s.advice a := by
  cases he with
  | vault c v _ _ => rfl
  | record agent b hb _ _ _ _ _ =>
    have hne : a ≠ agent := by
      rintro rfl
      exact hrec hb
    exact Function.update_of_ne hne _ _
  | resolve agent priceUpdate p1 slashed v hc _ _ _ _ _ =>
    have hne : a ≠ agent := by
      rintro rfl
      exact hres (by simp [Event.Resolves, hc])
    exact Function.update_of_ne hne _ _

end

end PerformanceOracle
end Arcane
