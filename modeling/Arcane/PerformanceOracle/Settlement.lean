import Arcane.BondVault.Exits
import Arcane.PerformanceOracle.Defs

/-!
# What a verdict does to the vault

The oracle is a client of the vault: what follows a verdict is a run of the vault, whose calls the
oracle makes (`settle_run`). A slash burns `slashAmount` of the agent's bond and as much of what
the oracle has, wallet and counter-bond together (`DoubleBurn`); a pass moves no money and
approves the release (`Passed`). Either succeeds when the agent's bond covers the amount and the
oracle can pay its half (`settle_succeeds`).
-/

namespace Arcane
namespace PerformanceOracle

open Evm
open BondVault (burnAddress)

/-- The vault after the oracle posted what its counter-bond lacks. -/
structure ToppedUp (O : Config) (v v' : BondVault.State) (slashAmount : ℕ) : Prop where
  bonds : v'.bonds = v.bonds
  oracle : v'.oracle = v.oracle
  paused : v'.paused = v.paused
  enough : slashAmount ≤ v'.counterBonds O.self
  posted : v'.counterBonds O.self =
    v.counterBonds O.self + (slashAmount - v.counterBonds O.self)
  paid : v'.bondToken.balanceOf O.self + (slashAmount - v.counterBonds O.self) =
    v.bondToken.balanceOf O.self
  received : v'.bondToken.balanceOf O.vault.self =
    v.bondToken.balanceOf O.vault.self + (slashAmount - v.counterBonds O.self)
  otherCounterBonds : ∀ a, a ≠ O.self → v'.counterBonds a = v.counterBonds a
  otherWallets : ∀ a, a ≠ O.self → a ≠ O.vault.self →
    v'.bondToken.balanceOf a = v.bondToken.balanceOf a

/-- Both halves of the slash are burned: the agent's from its bond, the oracle's from its wallet
and its counter-bond. -/
structure DoubleBurn (O : Config) (v v' : BondVault.State) (agent : Address) (slashAmount : ℕ) :
    Prop where
  bond : (v'.bonds agent).balance + slashAmount = (v.bonds agent).balance
  oracle : v'.bondToken.balanceOf O.self + v'.counterBonds O.self + slashAmount =
    v.bondToken.balanceOf O.self + v.counterBonds O.self
  posted : v'.bondToken.balanceOf O.self + (slashAmount - v.counterBonds O.self) =
    v.bondToken.balanceOf O.self
  vault : v'.bondToken.balanceOf O.vault.self + 2 * slashAmount =
    v.bondToken.balanceOf O.vault.self + (slashAmount - v.counterBonds O.self)
  burned : v'.bondToken.balanceOf burnAddress = v.bondToken.balanceOf burnAddress + 2 * slashAmount
  otherBonds : ∀ a, a ≠ agent → v'.bonds a = v.bonds a
  otherCounterBonds : ∀ a, a ≠ O.self → v'.counterBonds a = v.counterBonds a
  otherWallets : ∀ a, a ≠ O.self → a ≠ O.vault.self → a ≠ burnAddress →
    v'.bondToken.balanceOf a = v.bondToken.balanceOf a

/-- No money moved, and the agent may release. -/
structure Passed (v v' : BondVault.State) (agent : Address) : Prop where
  bondToken : v'.bondToken = v.bondToken
  counterBonds : v'.counterBonds = v.counterBonds
  balances : ∀ a, (v'.bonds a).balance = (v.bonds a).balance
  approved : (v'.bonds agent).oracleApprovedRelease = true
  otherBonds : ∀ a, a ≠ agent → v'.bonds a = v.bonds a

/-- The oracle, the vault and the burn address are three accounts. -/
structure Config.Distinct (O : Config) : Prop where
  vault : O.self ≠ O.vault.self
  burn : O.self ≠ burnAddress

/-- A call on the vault that the oracle makes during the call `m`. No such call asks the activity
checker. -/
def Config.client (O : Config) (m : Msg) (c : BondVault.Call) : BondVault.Event :=
  ⟨m.inner O.self O.self_ne, ⟨fun _ => none, fun _ _ _ => none⟩, c⟩

section

variable {O : Config} {v v' : BondVault.State} {m : Msg} {agent : Address} {slashAmount : ℕ}

theorem client_step (hO : O.Distinct) {c : BondVault.Call}
    (h : BondVault.exec O.vault v (O.client m c) = .ok v') :
    BondVault.Step O.vault v (O.client m c) v' :=
  ⟨⟨hO.vault, hO.burn⟩, h⟩

/-- The oracle's approval before it posts. -/
theorem approve_step (hO : O.Distinct) {t : Token} {need : ℕ}
    (h : v.bondToken.approve O.self O.vault.self need = .ok t) :
    BondVault.Step O.vault v (O.client m (.bondToken (.approve O.vault.self need)))
      { v with bondToken := t } := by
  refine client_step hO ?_
  simp only [BondVault.exec, Config.client, Token.Op.exec, Msg.inner_sender, bind_ok, external_ok,
    pure_ok]
  exact ⟨t, h, rfl⟩

theorem topUp_run (hO : O.Distinct) (h : topUp O v m slashAmount = .ok v') :
    ∃ tr, BondVault.Run O.vault v tr v' := by
  unfold topUp at h
  split at h
  · simp only [bind_ok, U256.sub_ok, revertIf_ok, Token.forceApprove, external_ok] at h
    obtain ⟨need, -, _, -, t, ht, hp⟩ := h
    have happrove := approve_step (m := m) hO ht
    have hpost := client_step (m := m) (c := .postCounterBond need) hO hp
    exact ⟨_, (Trace.Run.nil.snoc _ happrove).snoc _ hpost⟩
  · obtain rfl := pure_ok.mp h
    exact ⟨[], .nil⟩

/-- What follows a verdict is a run of the vault. -/
theorem settle_run (hO : O.Distinct) {slashed : Bool}
    (h : settle O v m agent slashAmount slashed = .ok v') :
    ∃ tr, BondVault.Run O.vault v tr v' := by
  unfold settle at h
  split at h
  · simp only [bind_ok, external_ok] at h
    obtain ⟨v₁, ht, hs⟩ := h
    obtain ⟨tr, hr⟩ := topUp_run hO ht
    exact ⟨_, hr.snoc _ (client_step (m := m) (c := .slash agent slashAmount) hO hs)⟩
  · have ha := external_ok.mp h
    exact ⟨_, Trace.Run.nil.snoc _ (client_step (m := m) (c := .approveRelease agent) hO ha)⟩

theorem topUp_ok (hO : O.Distinct) (h : topUp O v m slashAmount = .ok v') :
    ToppedUp O v v' slashAmount := by
  unfold topUp at h
  split at h
  · rename_i hlt
    simp only [bind_ok, U256.sub_ok, revertIf_ok, external_ok, BondVault.State.counterBondOf]
      at h hlt
    obtain ⟨need, ⟨hle, rfl⟩, _, -, t, ht, hp⟩ := h
    simp only [BondVault.postCounterBond, bind_ok, BondVault.whenNotPaused_ok, revertIf_ok,
      U256.add_ok, pure_ok, Msg.inner_sender] at hp
    obtain ⟨_, -, _, -, t', ht', _, ⟨-, rfl⟩, rfl⟩ := hp
    have hm := Token.safeTransferFrom_ok ht'
    have hbal : t.balanceOf = v.bondToken.balanceOf := by
      rw [Token.approve_ok (external_ok.mp ht)]
      rfl
    have hsrc := hm.src hO.vault
    have hdst := hm.dst hO.vault
    rw [hbal] at hsrc hdst
    refine ⟨rfl, rfl, rfl, ?_, ?_, hsrc, hdst, fun a ha => Function.update_of_ne ha _ _,
      fun a ha hv => ?_⟩
    · simp only [Function.update_self]
      omega
    · simp only [Function.update_self]
    · rw [← hbal]
      exact hm.other ha hv
  · rename_i hlt
    obtain rfl := pure_ok.mp h
    have hle : slashAmount ≤ v.counterBonds O.self := Nat.le_of_not_lt hlt
    have hz : slashAmount - v.counterBonds O.self = 0 := Nat.sub_eq_zero_of_le hle
    exact ⟨rfl, rfl, rfl, hle, by rw [hz]; rfl, by rw [hz]; rfl, by rw [hz]; rfl, fun _ _ => rfl,
      fun _ _ _ => rfl⟩

theorem settle_slash (hO : O.Distinct) (hburn : O.vault.self ≠ burnAddress)
    (h : settle O v m agent slashAmount true = .ok v') : DoubleBurn O v v' agent slashAmount := by
  simp only [settle, if_true, bind_ok, external_ok] at h
  obtain ⟨v₁, ht, hs⟩ := h
  obtain ⟨hbonds, -, -, -, hposted, hpaid, hrecv, hcbs, hwal⟩ := topUp_ok hO ht
  have he := BondVault.slash_effect (e := O.client m (.slash agent slashAmount)) rfl hs
  obtain ⟨-, hb, hcb, hob, hocb, hv, hbu, hw⟩ := he.slashed hburn rfl
  simp only [Config.client, Msg.inner_sender] at hcb hocb
  have hor := hw O.self hO.vault hO.burn
  rw [hbonds] at hb
  refine ⟨hb, by omega, by omega, by omega, ?_, fun a ha => ?_, fun a ha => ?_,
    fun a ha hav hab => ?_⟩
  · rw [hbu, hwal burnAddress hO.burn.symm hburn.symm]
  · rw [hob a ha, hbonds]
  · rw [hocb a ha, hcbs a ha]
  · rw [hw a hav hab, hwal a ha hav]

theorem settle_pass (h : settle O v m agent slashAmount false = .ok v') : Passed v v' agent := by
  simp only [settle, Bool.false_eq_true, if_false, external_ok, BondVault.approveRelease, bind_ok,
    BondVault.onlyOracle_ok, BondVault.whenNotPaused_ok, revertIf_ok, pure_ok] at h
  obtain ⟨_, -, _, -, _, -, rfl⟩ := h
  refine ⟨rfl, rfl, fun a => ?_, by simp, fun a ha => Function.update_of_ne ha _ _⟩
  by_cases ha : a = agent
  · subst ha
    simp
  · simp [Function.update_of_ne ha]

/-! ## Settlements that succeed -/

theorem topUp_succeeds (hO : O.Distinct) (hv : BondVault.Solvent O.vault v)
    (hp : v.paused = false)
    (hfunds : slashAmount ≤ v.counterBonds O.self + v.bondToken.balanceOf O.self) :
    ∃ v', topUp O v m slashAmount = .ok v' := by
  unfold topUp
  split
  · rename_i hlt
    change v.counterBonds O.self < slashAmount at hlt
    generalize hn : slashAmount - v.counterBonds O.self = need
    have ht : v.bondToken.approve O.self O.vault.self need =
        .ok (v.bondToken.setAllowance O.self O.vault.self need) := by
      simp only [Token.approve, bind_ok, revertIf_ok]
      exact ⟨(), O.self_ne, (), hv.wf.self_ne, rfl⟩
    have hsolv := hv.step (approve_step (m := m) hO ht)
    have hwallet : need ≤ v.bondToken.balanceOf O.self := by omega
    have hallow : need ≤
        (v.bondToken.setAllowance O.self O.vault.self need).allowance O.self O.vault.self := by
      rw [Token.setAllowance_self]
    obtain ⟨v', hpost⟩ := BondVault.postCounterBond_succeeds (m := m.inner O.self O.self_ne) hsolv
      hp (by omega) hO.vault hwallet hallow
    refine ⟨v', ?_⟩
    simp only [bind_ok, U256.sub_ok, revertIf_ok, external_ok, BondVault.State.counterBondOf,
      Token.forceApprove]
    exact ⟨need, ⟨by omega, hn⟩, (), by omega, _, ht, hpost⟩
  · exact ⟨v, rfl⟩

/-- Either verdict can be settled while the agent's bond covers the amount and the oracle can pay
its half. -/
theorem settle_succeeds (hO : O.Distinct) (hv : BondVault.Solvent O.vault v)
    (ho : v.oracle = O.self) (hp : v.paused = false) (hne : slashAmount ≠ 0)
    (hb : slashAmount ≤ (v.bonds agent).balance)
    (hfunds : slashAmount ≤ v.counterBonds O.self + v.bondToken.balanceOf O.self)
    (slashed : Bool) : ∃ v', settle O v m agent slashAmount slashed = .ok v' := by
  unfold settle
  cases slashed with
  | true =>
    obtain ⟨v₁, ht⟩ := topUp_succeeds (m := m) hO hv hp hfunds
    obtain ⟨tr, hr⟩ := topUp_run hO ht
    have htu := topUp_ok hO ht
    obtain ⟨v', hs⟩ := BondVault.slash_succeeds (m := m.inner O.self O.self_ne)
      (BondVault.Run.solvent hv hr) (htu.oracle.trans ho).symm (htu.paused.trans hp) hne
      (by rw [htu.bonds]; exact hb) htu.enough
    refine ⟨v', ?_⟩
    simp only [if_true, bind_ok, external_ok]
    exact ⟨v₁, ht, hs⟩
  | false =>
    have hbond : (v.bonds agent).balance ≠ 0 := by omega
    obtain ⟨v', ha⟩ := BondVault.approveRelease_succeeds (m := m.inner O.self O.self_ne) ho.symm hp
      hbond
    exact ⟨v', external_ok.mpr ha⟩

end

end PerformanceOracle
end Arcane
