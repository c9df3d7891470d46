import Arcane.Colosseum.Escrow

/-!
# What a bounty is

The events of `injectChaos` and of `reportCall` that tell of a fee and of a bounty.

* `chaosInjected`, `bountyPaid`: the events of a step.
* `Run.escrowed`: every escrow is what the operator left of the fee of its injection.
* `Run.bounty`: a bounty is an earlier injection's escrow, paid to the developer of its target.
* `Run.injections_increase`, `Run.bounties_once`: no id is given twice, and no bounty paid twice.
-/

namespace Arcane
namespace Colosseum

open Evm

/-- A `ChaosInjected` event, without its `escrow`, which nobody reads. -/
structure ChaosInjected where
  injectionId : ℕ
  duelId : ℕ
  target : Address
  spectator : Address
  itemKind : ℕ
  fee : ℕ
  deriving DecidableEq

structure BountyPaid where
  injectionId : ℕ
  duelId : ℕ
  developer : Address
  amount : ℕ
  deriving DecidableEq

def chaosInjected (st : Trace.Step State Event) : Option ChaosInjected :=
  match st.ev.call with
  | .injectChaos duelId target itemKind =>
    some ⟨st.ev.ret, duelId, target, st.ev.msg.sender, itemKind, st.pre.itemPrice itemKind⟩
  | _ => none

def bountyPaid (st : Trace.Step State Event) : Option BountyPaid :=
  match st.ev.call with
  | .reportCall duelId agent injectionId _ _ survived _ =>
    let escrow := st.pre.injectionEscrows injectionId
    let dev := (st.pre.agents agent).developer
    if injectionId ≠ 0 ∧ 0 < escrow ∧ survived = true ∧ dev ≠ 0 then
      some ⟨injectionId, duelId, dev, escrow⟩
    else none
  | _ => none

/-- What the operator leaves of the fee for an item. -/
def State.escrowFor (s : State) (itemKind : ℕ) : ℕ :=
  s.itemPrice itemKind - s.itemPrice itemKind * s.operatorCutBps / 10000

section

variable {C : Config} {s₀ s s' : State} {e : Event} {tr tr₁ tr₂ : List (Trace.Step State Event)}
  {st : Trace.Step State Event} {x : ChaosInjected} {b : BountyPaid} {i : ℕ}

theorem chaosInjected_eq_some : chaosInjected st = some x ↔
    st.ev.call = .injectChaos x.duelId x.target x.itemKind ∧ st.ev.ret = x.injectionId ∧
      st.ev.msg.sender = x.spectator ∧ st.pre.itemPrice x.itemKind = x.fee := by
  obtain ⟨injectionId, duelId, target, spectator, itemKind, fee⟩ := x
  unfold chaosInjected
  constructor
  · intro h
    split at h
    · next hcall =>
      cases h
      exact ⟨hcall, rfl, rfl, rfl⟩
    · cases h
  · intro h
    dsimp only at h
    obtain ⟨hcall, rfl, rfl, rfl⟩ := h
    rw [hcall]

/-- The report that pays a bounty. -/
structure Pays (st : Trace.Step State Event) (agent : Address) (b : BountyPaid) : Prop where
  call : ∃ rBps ing failed,
    st.ev.call = .reportCall b.duelId agent b.injectionId rBps ing true failed
  escrow : st.pre.injectionEscrows b.injectionId = b.amount
  developer : (st.pre.agents agent).developer = b.developer
  injectionId_ne : b.injectionId ≠ 0
  developer_ne : b.developer ≠ 0
  positive : 0 < b.amount

theorem pays_of_bountyPaid (h : bountyPaid st = some b) : ∃ agent, Pays st agent b := by
  unfold bountyPaid at h
  split at h
  · next duelId agent injectionId rBps ing survived failed hcall =>
    dsimp only at h
    split at h
    · next hif =>
      obtain ⟨hid, hpos, rfl, hdev⟩ := hif
      cases h
      exact ⟨agent, ⟨_, _, _, hcall⟩, rfl, rfl, hid, hdev, hpos⟩
    · cases h
  · cases h

/-- An injection locks what the operator leaves of the fee. -/
theorem Step.escrow {id k : ℕ} {target : Address} (h : Step C s e s')
    (hcall : e.call = .injectChaos id target k) :
    s'.injectionEscrows e.ret = s.escrowFor k := by
  obtain ⟨m, call, ret⟩ := e
  obtain ⟨-, h⟩ := h
  obtain rfl : call = .injectChaos id target k := hcall
  simp only [exec, injectChaos, bind_ok, revertIf_ok, liveDuel_ok, U256.add_ok, U256.mul_ok,
    U256.sub_ok, pure_ok, Prod.mk.injEq] at h
  obtain ⟨_, -, _, -, _, -, _, -, _, -, _, -, _, ⟨-, rfl⟩, _, ⟨-, rfl⟩, _, -, _, -, _, -, rfl,
    rfl⟩ := h
  exact Function.update_self _ _ _

/-- What is locked for an injection is what the operator left of its fee. -/
theorem Run.escrowed (h₀ : Deployed C s₀) (h : Run C s₀ tr s) :
    ∀ i, s.injectionEscrows i ≠ 0 → ∃ st ∈ tr, ∃ x, chaosInjected st = some x ∧ x.injectionId = i ∧
      x.target = s.injectionTarget i ∧ s.injectionEscrows i = st.pre.escrowFor x.itemKind := by
  refine h.history (P := fun tr s => ∀ i, s.injectionEscrows i ≠ 0 → ∃ st ∈ tr, ∃ x,
    chaosInjected st = some x ∧ x.injectionId = i ∧ x.target = s.injectionTarget i ∧
      s.injectionEscrows i = st.pre.escrowFor x.itemKind) ?_ ?_
  · rw [h₀.eq_initial]
    exact fun i hne => absurd rfl hne
  · intro tr s e s' hr ih hst i hne
    have hwf := Run.wellFormed h₀ hr
    cases (hst.effect hwf).escrow hwf i with
    | same hkeep htarget =>
      obtain ⟨st, hm, x, hx, hid, htgt, hesc⟩ := ih i (hkeep ▸ hne)
      exact ⟨st, List.mem_append_left _ hm, x, hx, hid, htgt.trans htarget.symm, hkeep.trans hesc⟩
    | created id target k hcall hret _ _ _ htarget =>
      refine ⟨⟨s, e, s'⟩, by simp, ⟨e.ret, id, target, e.msg.sender, k, s.itemPrice k⟩, ?_, hret,
        htarget.symm, ?_⟩
      · exact chaosInjected_eq_some.mpr ⟨hcall, rfl, rfl, rfl⟩
      · rw [← hret]
        exact hst.escrow hcall
    | settled _ _ _ _ _ _ _ _ _ _ _ hzero => exact absurd hzero hne

/-- A settlement for an agent that survived and has a developer. -/
theorem Settled.bounty_paid {id : ℕ} {agent : Address} (h : Settled C s id agent i true s')
    (hi : i ≠ 0) (hpos : s.injectionEscrows i ≠ 0) (hdev : (s.agents agent).developer ≠ 0) :
    s.injectionTarget i = agent ∧ s'.injectionEscrows i = 0 ∧
      Token.Moved s.usdc s'.usdc C.self (s.agents agent).developer (s.injectionEscrows i) := by
  cases h with
  | idle hidle => exact absurd hidle (not_or.mpr ⟨hi, hpos⟩)
  | bounty usdc _ _ htarget _ _ hmoved => exact ⟨htarget, Function.update_self _ _ _, hmoved⟩
  | pooled _ _ _ hnot => exact absurd ⟨rfl, hdev⟩ hnot

theorem Pays.paid {agent : Address} (h : Pays st agent b) (hwf : WellFormed C st.pre)
    (hst : Step C st.pre st.ev st.post) :
    st.pre.injectionTarget b.injectionId = agent ∧ Settles st b.injectionId ∧
      Token.Moved st.pre.usdc st.post.usdc C.self b.developer b.amount := by
  obtain ⟨⟨rBps, ing, failed, hcall⟩, hescrow, hdeveloper, hid, hdev, hpos⟩ := h
  obtain ⟨s, e, s'⟩ := st
  dsimp only at hcall hescrow hdeveloper hst ⊢
  have hne : s.injectionEscrows b.injectionId ≠ 0 := hescrow ▸ hpos.ne'
  have he : Effect C s e s' := hst.effect hwf
  cases he with
  | report _ _ _ _ _ _ _ scoreA scoreB ingested survived failures _ hcall' _ _ _ hsettled =>
    rw [hcall] at hcall'
    cases hcall'
    -- the scores and the failures leave the token, the escrows and the developers alone
    have hagent : ((s.scored b.duelId agent scoreA scoreB ingested survived failures).agents
        agent).developer = b.developer := by
      simp [State.scored, hdeveloper]
    obtain ⟨htarget, hzero, hmoved⟩ := hsettled.bounty_paid hid hne (hagent ▸ hdev)
    rw [hagent] at hmoved
    exact ⟨htarget, ⟨hne, hzero⟩, hescrow ▸ hmoved⟩
  | _ => simp_all [Call.setter]

/-- A bounty is what an earlier injection locked. It is paid to the developer of the target, and
settles the injection. -/
theorem Run.bounty (h₀ : Deployed C s₀) (h : Run C s₀ (tr₁ ++ st :: tr₂) s)
    (hb : bountyPaid st = some b) : ∃ st' ∈ tr₁, ∃ x, chaosInjected st' = some x ∧
      x.injectionId = b.injectionId ∧ b.amount = st'.pre.escrowFor x.itemKind ∧
      Pays st x.target b ∧ Settles st b.injectionId ∧
      Token.Moved st.pre.usdc st.post.usdc C.self b.developer b.amount := by
  obtain ⟨hr, hst, -⟩ := h.split
  obtain ⟨agent, hpays⟩ := pays_of_bountyPaid hb
  obtain ⟨htarget, hsettles, hmoved⟩ := hpays.paid (Run.wellFormed h₀ hr) hst
  obtain ⟨st', hm, x, hx, hid, htgt, hesc⟩ := Run.escrowed h₀ hr _ hsettles.1
  obtain rfl : x.target = agent := htgt.trans htarget
  exact ⟨st', hm, x, hx, hid, hpays.escrow.symm.trans hesc, hpays, hsettles, hmoved⟩

/-- Injections take ascending ids. -/
theorem Run.injections_increase (h₀ : Deployed C s₀) (h : Run C s₀ tr s) :
    tr.Pairwise fun st st' => ∀ x y, chaosInjected st = some x → chaosInjected st' = some y →
      x.injectionId < y.injectionId := by
  refine h.history (P := fun tr _ => tr.Pairwise fun st st' => ∀ x y, chaosInjected st = some x →
    chaosInjected st' = some y → x.injectionId < y.injectionId) .nil ?_
  intro tr s e s' hr ih hst
  refine List.pairwise_append.mpr
    ⟨ih, List.pairwise_singleton _ _, fun st hm st' hm' x y hx hy => ?_⟩
  obtain rfl := List.mem_singleton.mp hm'
  obtain ⟨hcall, hret, -⟩ := chaosInjected_eq_some.mp hx
  obtain ⟨hcall', hret', -⟩ := chaosInjected_eq_some.mp hy
  have hle := (Run.recorded h₀ hr).counted x.injectionId x.duelId x.target
    ⟨st, hm, x.itemKind, hcall, hret⟩
  obtain ⟨-, hnew, -⟩ := (hst.effect (Run.wellFormed h₀ hr)).injects hcall'
  rw [← hret', hnew]
  exact Nat.lt_succ_of_le hle

/-- No injection pays a second bounty. -/
theorem Run.bounties_once (h₀ : Deployed C s₀) (h : Run C s₀ tr s) :
    tr.Pairwise fun st st' => ∀ b c, bountyPaid st = some b → bountyPaid st' = some c →
      b.injectionId ≠ c.injectionId := by
  refine h.history (P := fun tr _ => tr.Pairwise fun st st' => ∀ b c, bountyPaid st = some b →
    bountyPaid st' = some c → b.injectionId ≠ c.injectionId) .nil ?_
  intro tr s e s' hr ih hst
  refine List.pairwise_append.mpr
    ⟨ih, List.pairwise_singleton _ _, fun st hm st' hm' b c hb hc => ?_⟩
  obtain rfl := List.mem_singleton.mp hm'
  obtain ⟨_, hpays⟩ := pays_of_bountyPaid hc
  obtain ⟨-, hsettles, -⟩ := hpays.paid (Run.wellFormed h₀ hr) hst
  -- an injection that was settled in `tr` has no escrow left
  have hsettled : Settles st b.injectionId := by
    obtain ⟨tr₁, tr₂, rfl, -⟩ := hr.of_mem hm
    obtain ⟨-, -, -, -, -, -, -, hsettled, -⟩ := Run.bounty h₀ hr hb
    exact hsettled
  intro heq
  have hmem : st ∈ tr.filter (Settles · b.injectionId) :=
    List.mem_filter.mpr ⟨hm, decide_eq_true hsettled⟩
  obtain ⟨hle, hzero⟩ := Run.settled_once h₀ hr b.injectionId
  have hpos : 0 < (tr.filter (Settles · b.injectionId)).length := List.length_pos_of_mem hmem
  exact hsettles.1 (heq ▸ (hzero (by omega)).1)

end

end Colosseum
end Arcane
