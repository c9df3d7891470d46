import Arcane.BondVault.Effect

/-!
# Conservation of the vault's money

The vault's balance moves with what it holds for others, the bonds and the counter-bonds
(`State.held`), and with what other accounts send it outside its functions (`Event.donated`):
`Effect.balance` for one call, `Run.balance` for a run.

`WellFormed` is what the movements need: the vault approves nobody, and a bond with money in it
belongs to an agent that posted it, which is neither the vault nor the burn address. Since the
vault has at least what it holds, the calls that a slasher makes cannot fail for lack of money.
-/

namespace Arcane
namespace BondVault

open Evm

structure WellFormed (C : Config) (s : State) : Prop where
  self_ne : C.self ≠ 0
  self_ne_burn : C.self ≠ burnAddress
  reserved : s.bondToken.Reserved C.self
  funded : ∀ a, (s.bonds a).balance ≠ 0 →
    (s.bonds a).operator = a ∧ a ≠ C.self ∧ a ≠ burnAddress

/-- What the vault holds for agents and slashers. -/
noncomputable def State.held (s : State) : ℕ := ∑ a, (s.bonds a).balance + ∑ a, s.counterBonds a

/-- What the call sends to the vault outside its functions. -/
def Event.donated (C : Config) (e : Event) : ℕ :=
  match e.call with
  | .bondToken op => op.credit C.self
  | _ => 0

/-- What the steps send to the vault outside its functions. -/
def donations (C : Config) (tr : List (Trace.Step State Event)) : ℕ :=
  (tr.map fun st => st.ev.donated C).sum

section

variable {C : Config} {s s₀ s' : State} {e : Event} {tr : List (Trace.Step State Event)}

theorem Deployed.eq_initial (h : Deployed C s) :
    s = .initial s.bondToken s.owner s.oracle s.releaseWindow s.livenessTimeout := by
  obtain ⟨m, hd⟩ := h.deploy
  simp only [BondVault.deploy, bind_ok, revertIf_ok, pure_ok] at hd
  obtain ⟨_, -, hs⟩ := hd
  rw [← hs]
  rfl

theorem WellFormed.deployed (h : Deployed C s) : WellFormed C s where
  self_ne := h.self_ne
  self_ne_burn := h.self_ne_burn
  reserved := h.reserved
  funded a ha := by
    rw [h.eq_initial] at ha
    exact absurd rfl ha

/-- A write to the bond of `a` that leaves money in it only where some was, or by `a`'s post. -/
theorem WellFormed.update {f : Address → Bond} {a : Address} {b : Bond}
    (hf : ∀ x, (f x).balance ≠ 0 → (f x).operator = x ∧ x ≠ C.self ∧ x ≠ burnAddress)
    (hb : b.balance ≠ 0 → b.operator = a ∧ a ≠ C.self ∧ a ≠ burnAddress) (x : Address)
    (hx : (Function.update f a b x).balance ≠ 0) :
    (Function.update f a b x).operator = x ∧ x ≠ C.self ∧ x ≠ burnAddress := by
  by_cases hxa : x = a
  · subst hxa
    rw [Function.update_self] at hx ⊢
    exact hb hx
  · rw [Function.update_of_ne hxa] at hx ⊢
    exact hf x hx

theorem WellFormed.step (h : WellFormed C s) (hl : Legal C e.msg) (he : Effect C s e s') :
    WellFormed C s' := by
  obtain ⟨hself, hburn, hres, hf⟩ := h
  cases he with
  | post amount signal bondToken _ ht =>
    exact ⟨hself, hburn, hres.mono (ht.allowance C.self), WellFormed.update hf fun _ =>
      ⟨rfl, hl⟩⟩
  | release bondToken _ _ _ ht =>
    exact ⟨hself, hburn, hres.mono (ht.allowance C.self), WellFormed.update hf fun hb =>
      absurd rfl hb⟩
  | postCounterBond amount bondToken _ ht =>
    exact ⟨hself, hburn, hres.mono (ht.allowance C.self), hf⟩
  | withdrawCounterBond amount bondToken _ _ ht =>
    exact ⟨hself, hburn, hres.mono (ht.allowance C.self), hf⟩
  | slash agent amount between bondToken _ _ _ _ ht ht' =>
    exact ⟨hself, hburn, (hres.mono (ht.allowance C.self)).mono (ht'.allowance C.self),
      WellFormed.update hf fun hb => hf agent fun hz => hb (by simp [hz])⟩
  | approveRelease agent _ _ _ =>
    exact ⟨hself, hburn, hres, WellFormed.update hf (hf agent)⟩
  | refresh agent signal _ _ _ =>
    exact ⟨hself, hburn, hres, WellFormed.update hf (hf agent)⟩
  | noProgress agent _ _ => exact ⟨hself, hburn, hres, hf⟩
  | releaseToOperator agent bondToken _ _ _ ht =>
    exact ⟨hself, hburn, hres.mono (ht.allowance C.self), WellFormed.update hf fun hb =>
      absurd rfl hb⟩
  | admin owner paused oracle activityChecker releaseWindow livenessTimeout _ =>
    exact ⟨hself, hburn, hres, hf⟩
  | token op bondToken _ ht =>
    exact ⟨hself, hburn, (Token.Op.exec_held hl.1 hres ht).2, hf⟩

theorem Run.wellFormed (h₀ : WellFormed C s₀) (h : Run C s₀ tr s) : WellFormed C s :=
  h.invariant h₀ fun _ _ _ hs hst => hs.step hst.1 hst.effect

/-! ## The balance -/

theorem sum_balance_update (f : Address → Bond) (a : Address) (b : Bond) :
    ∑ x, (Function.update f a b x).balance + (f a).balance = ∑ x, (f x).balance + b.balance :=
  Mapping.sum_map_update (Finset.mem_univ a) Bond.balance f b

theorem sum_counterBond_update (f : Address → ℕ) (a : Address) (n : ℕ) :
    ∑ x, Function.update f a n x + f a = ∑ x, f x + n :=
  Mapping.sum_update (Finset.mem_univ a) f n

/-- A call that is none on the token itself donates nothing. -/
theorem Event.donated_eq_zero (h : ∀ op, e.call ≠ .bondToken op) : e.donated C = 0 := by
  unfold Event.donated
  split
  · exact absurd ‹_› (h _)
  · rfl

/-- One call: the balance moves with what the vault holds. -/
theorem Effect.balance (hwf : WellFormed C s) (hl : Legal C e.msg) (he : Effect C s e s') :
    s'.bondToken.balanceOf C.self + s.held =
      s.bondToken.balanceOf C.self + s'.held + e.donated C := by
  cases he with
  | post amount signal bondToken hc ht =>
    have hsum := sum_balance_update s.bonds e.msg.sender
      ((s.bonds e.msg.sender).posted e.msg amount signal)
    have hbal := ht.dst hl.1
    rw [Event.donated_eq_zero (by simp [hc])]
    simp only [Bond.posted, State.held] at *
    omega
  | release bondToken hc _ _ ht =>
    have hsum := sum_balance_update s.bonds e.msg.sender
      { s.bonds e.msg.sender with balance := 0, oracleApprovedRelease := false }
    have hbal := ht.src hl.1.symm
    rw [Event.donated_eq_zero (by simp [hc])]
    simp only [State.held] at *
    omega
  | postCounterBond amount bondToken hc ht =>
    have hsum := sum_counterBond_update s.counterBonds e.msg.sender
      (s.counterBonds e.msg.sender + amount)
    have hbal := ht.dst hl.1
    rw [Event.donated_eq_zero (by simp [hc])]
    simp only [State.held] at *
    omega
  | withdrawCounterBond amount bondToken hc hle ht =>
    have hsum := sum_counterBond_update s.counterBonds e.msg.sender
      (s.counterBonds e.msg.sender - amount)
    have hbal := ht.src hl.1.symm
    rw [Event.donated_eq_zero (by simp [hc])]
    simp only [State.held] at *
    omega
  | slash agent amount between bondToken hc _ hb hcb ht ht' =>
    have hsum := sum_balance_update s.bonds agent
      { s.bonds agent with balance := (s.bonds agent).balance - amount }
    have hsum' := sum_counterBond_update s.counterBonds e.msg.sender
      (s.counterBonds e.msg.sender - amount)
    have hbal := ht.src hwf.self_ne_burn
    have hbal' := ht'.src hwf.self_ne_burn
    rw [Event.donated_eq_zero (by simp [hc])]
    simp only [State.held] at *
    omega
  | approveRelease agent hc _ _ =>
    have hsum := sum_balance_update s.bonds agent
      { s.bonds agent with oracleApprovedRelease := true }
    rw [Event.donated_eq_zero (by simp [hc])]
    simp only [State.held] at *
    omega
  | refresh agent signal hc _ _ =>
    have hsum := sum_balance_update s.bonds agent
      { s.bonds agent with lastActivitySignal := signal, lastActivityAt := e.msg.timestamp }
    rw [Event.donated_eq_zero (by simp [hc])]
    simp only [State.held] at *
    omega
  | noProgress agent hc _ => rw [Event.donated_eq_zero (by simp [hc]), Nat.add_zero]
  | releaseToOperator agent bondToken hc hb _ ht =>
    have hsum := sum_balance_update s.bonds agent { s.bonds agent with balance := 0 }
    obtain ⟨hop, hself, -⟩ := hwf.funded agent hb
    rw [hop] at ht
    have hbal := ht.src hself.symm
    rw [Event.donated_eq_zero (by simp [hc])]
    simp only [State.held] at *
    omega
  | admin owner paused oracle activityChecker releaseWindow livenessTimeout hc =>
    rw [Event.donated_eq_zero (by rintro op h; simp [h, Call.admin] at hc)]
    rfl
  | token op bondToken hc ht =>
    have hbal := (Token.Op.exec_held hl.1 hwf.reserved ht).1
    have hd : e.donated C = op.credit C.self := by unfold Event.donated; rw [hc]
    simp only [State.held]
    omega

theorem Deployed.held_eq_zero (h : Deployed C s) : s.held = 0 := by
  rw [h.eq_initial]
  simp [State.held, State.initial, Bond.empty]

/-- A run: the vault has what it holds, and what was sent to it besides. -/
theorem Run.balance (h₀ : Deployed C s₀) (h : Run C s₀ tr s) :
    s.bondToken.balanceOf C.self =
      s.held + s₀.bondToken.balanceOf C.self + donations C tr := by
  refine h.history (P := fun tr s => s.bondToken.balanceOf C.self =
    s.held + s₀.bondToken.balanceOf C.self + donations C tr) ?_ ?_
  · simp [h₀.held_eq_zero, donations]
  · intro tr s e s' hr ih hst
    have hstep := hst.effect.balance (Run.wellFormed (.deployed h₀) hr) hst.1
    simp only [donations, List.map_append, List.map_cons, List.map_nil, List.sum_append,
      List.sum_cons, List.sum_nil] at ih ⊢
    omega

/-- A well-formed vault that can pay what it holds. -/
structure Solvent (C : Config) (s : State) : Prop where
  wf : WellFormed C s
  held_le : s.held ≤ s.bondToken.balanceOf C.self

theorem Solvent.deployed (h : Deployed C s) : Solvent C s where
  wf := .deployed h
  held_le := by
    rw [h.held_eq_zero]
    exact Nat.zero_le _

theorem Solvent.step (h : Solvent C s) (hst : Step C s e s') : Solvent C s' where
  wf := h.wf.step hst.1 hst.effect
  held_le := by
    have hbal := hst.effect.balance h.wf hst.1
    have hle := h.held_le
    omega

theorem Run.solvent (h₀ : Solvent C s₀) (h : Run C s₀ tr s) : Solvent C s :=
  h.invariant h₀ fun _ _ _ hs hst => hs.step hst

/-! ## Calls that succeed -/

theorem State.bond_add_counterBond_le (s : State) (a x : Address) :
    (s.bonds a).balance + s.counterBonds x ≤ s.held :=
  Nat.add_le_add (Mapping.le_sum (f := fun a => (s.bonds a).balance) (Finset.mem_univ a))
    (Mapping.le_sum (Finset.mem_univ x))

/-- A counter-bond that the sender has and approved is accepted, unless the vault is paused. -/
theorem postCounterBond_succeeds {m : Msg} {amount : ℕ} (hs : Solvent C s)
    (hp : s.paused = false) (hne : amount ≠ 0) (hm : m.sender ≠ C.self)
    (hw : amount ≤ s.bondToken.balanceOf m.sender)
    (hal : amount ≤ s.bondToken.allowance m.sender C.self) :
    ∃ s', postCounterBond C s m amount = .ok s' := by
  obtain ⟨t, ht⟩ := Token.transferFrom_succeeds m.sender_ne hs.wf.self_ne hw hal
  have ht' : (s.bondToken.safeTransferFrom C.self m.sender amount : Tx Error Token) = .ok t :=
    external_ok.mpr ht
  -- the vault's balance bounds every counter-bond
  have hbal := (Token.safeTransferFrom_ok ht').dst hm
  have hlt := t.balanceOf_lt C.self
  have hheld := hs.held_le
  have hle := s.bond_add_counterBond_le m.sender m.sender
  refine ⟨{ s with
    bondToken := t
    counterBonds := Function.update s.counterBonds m.sender
      (s.counterBonds m.sender + amount) }, ?_⟩
  simp only [postCounterBond, bind_ok, whenNotPaused_ok, revertIf_ok, U256.add_ok, pure_ok]
  exact ⟨(), hp, (), hne, t, ht', _, ⟨by omega, rfl⟩, rfl⟩

/-- The oracle can slash up to the agent's bond and its own counter-bond. -/
theorem slash_succeeds {m : Msg} {agent : Address} {amount : ℕ} (hs : Solvent C s)
    (ho : m.sender = s.oracle) (hp : s.paused = false) (hne : amount ≠ 0)
    (hb : amount ≤ (s.bonds agent).balance) (hcb : amount ≤ s.counterBonds m.sender) :
    ∃ s', slash C s m agent amount = .ok s' := by
  have hwf := hs.wf
  have hheld := hs.held_le
  have hle := s.bond_add_counterBond_le agent m.sender
  have hlt := s.bondToken.balanceOf_lt C.self
  have hburn : burnAddress ≠ 0 := by decide
  obtain ⟨t, ht⟩ := Token.safeTransfer_succeeds (ε := Error) (n := amount) hwf.self_ne hburn
    (t := s.bondToken) (by omega)
  have hsrc := (Token.safeTransfer_ok ht).src hwf.self_ne_burn
  obtain ⟨t', ht'⟩ := Token.safeTransfer_succeeds (ε := Error) (n := amount) hwf.self_ne hburn
    (t := t) (by omega)
  refine ⟨{ s with
    bondToken := t'
    bonds := Function.update s.bonds agent
      { s.bonds agent with balance := (s.bonds agent).balance - amount }
    counterBonds := Function.update s.counterBonds m.sender
      (s.counterBonds m.sender - amount) }, ?_⟩
  simp only [slash, bind_ok, onlyOracle_ok, whenNotPaused_ok, revertIf_ok, not_lt, U256.mul_ok,
    pure_ok]
  exact ⟨(), ho, (), hp, (), hne, (), hb, (), hcb, t, ht, t', ht', _, ⟨by omega, rfl⟩, rfl⟩

/-- The oracle can approve the release of every bond with money in it. -/
theorem approveRelease_succeeds {m : Msg} {agent : Address} (ho : m.sender = s.oracle)
    (hp : s.paused = false) (hb : (s.bonds agent).balance ≠ 0) :
    ∃ s', approveRelease s m agent = .ok s' := by
  simp only [approveRelease, bind_ok, onlyOracle_ok, whenNotPaused_ok, revertIf_ok, pure_ok]
  exact ⟨_, (), ho, (), hp, (), hb, rfl⟩

end

end BondVault
end Arcane
