import Arcane.Colosseum.Solvency

/-!
# Payouts of a resolved duel

What `claim` pays, for every order of the claims. The amounts come from the parimutuel book that
the duel represents; this module adds what the book does not know: that a claim of an entitled
account goes through (`claim_succeeds`), that any other claim reverts with the right error, and
that the money reaches the claimant.
-/

namespace Arcane
namespace Colosseum

open Evm

section Claim

variable {C : Config} {s s' : State} {m : Msg} {id : ℕ} {b : Parimutuel.Book Address}

/-- The duel's pools fit a `uint256`. -/
def PoolsFit (s : State) : Prop := ∀ id side, (s.duels id).pool side < 2 ^ 256

theorem PoolsFit.step {e : Event} (hwf : WellFormed C s) (h : PoolsFit s) (he : Effect C s e s') :
    PoolsFit s' := by
  intro id side
  cases hev : e.onBook s id with
  | none =>
    rw [(he.sameBook hwf hev).pool]
    exact h id side
  | some ev =>
    cases he with
    | register _ _ hc | create _ _ _ _ hc | report _ _ _ _ _ _ _ _ _ _ _ _ _ hc
    | inject _ _ _ _ _ hc | fund _ _ _ hc | token _ _ hc => simp [Event.onBook, hc] at hev
    | params _ _ _ _ _ _ hc => rw [Event.onBook_of_setter hc] at hev; cases hev
    | resolve x usdc shieldWinner hc _ _ _ _ =>
      obtain ⟨rfl, -⟩ : x = id ∧ _ = ev := by simpa [Event.onBook, hc] using hev
      have := h x side
      simpa [Duel.pool] using this
    | bet x onA amount usdc hc _ _ hlt _ =>
      obtain ⟨rfl, -⟩ : x = id ∧ _ = ev := by simpa [Event.onBook, hc] using hev
      have := h x side
      cases onA <;> cases side <;> simp_all [Duel.pool]
    | claim x newClaimed paid usdc hc _ _ _ _ _ => exact h id side

theorem winnerPayout_succeeds {W T mine : ℕ} (newClaimed : ℕ) (hle : s.paidOut id ≤ T)
    (hfit : mine * T < 2 ^ 256) :
    winnerPayout s id W T mine newClaimed =
      .ok (if newClaimed = W then T - s.paidOut id else mine * T / W) := by
  unfold winnerPayout
  split
  · exact U256.sub_ok.mpr ⟨hle, rfl⟩
  · simp only [bind_ok, U256.mul_ok, pure_ok]
    exact ⟨_, ⟨hfit, rfl⟩, rfl⟩

/-- A claim of an entitled account computes the payout of the book. -/
theorem claimPayout_succeeds (h : s.Represents id b) (hres : (s.duels id).status = .resolved)
    (hn : m.sender ∉ b.claimed) (hent : b.Entitled (s.duels id).winnerIsA m.sender)
    (hT : b.total < 2 ^ 256)
    (hfit : s.betOf id (s.duels id).winnerIsA m.sender * b.total < 2 ^ 256) :
    ∃ s₁, claimPayout s m id (s.duels id).winnerIsA (b.pool (s.duels id).winnerIsA) b.total =
      .ok (s₁, b.payout (s.duels id).winnerIsA m.sender) ∧ s₁.usdc = s.usdc := by
  generalize hwin : (s.duels id).winnerIsA = w at *
  have hw : b.winner = some w := hwin ▸ h.winner_of_resolved hres
  simp only [claimPayout, ← h.stake] at hfit ⊢
  by_cases hz : b.pool w = 0
  · have hboth : b.both m.sender ≤ b.total := by
      rw [← b.sum_both]
      exact Mapping.le_sum (Finset.mem_univ _)
    have hlt : b.stake true m.sender + b.stake false m.sender < 2 ^ 256 := hboth.trans_lt hT
    rw [if_pos hz, Parimutuel.Book.payout, Parimutuel.Book.payoutAfter_of_empty hz]
    refine ⟨s, ?_, rfl⟩
    simp only [bind_ok, U256.add_ok, pure_ok]
    exact ⟨_, ⟨hlt, rfl⟩, rfl⟩
  · obtain ⟨hcw, hpo⟩ := h.counters w hw hz
    have hpos := hent.2 hz
    have hcl : ∑ x ∈ b.claimed, b.stake w x + b.stake w m.sender ≤ b.pool w := by
      rw [Nat.add_comm, ← Finset.sum_insert hn]
      exact b.sum_le w _
    have hpool := b.pool_le_total w
    have hpaid := (b.claim w m.sender hw hent).paid_le w
    rw [Parimutuel.Book.paid_claim hw hent hn] at hpaid
    change b.paid w + b.payout w m.sender ≤ b.total at hpaid
    have hpay : b.payout w m.sender =
        if s.winClaimedStake id + b.stake w m.sender = b.pool w then b.total - s.paidOut id
        else b.stake w m.sender * b.total / b.pool w := by
      rw [Parimutuel.Book.payout, Parimutuel.Book.payoutAfter_of_pool hz, hcw, hpo]
      rfl
    have hle : s.paidOut id ≤ b.total := by rw [hpo]; exact b.paid_le w
    rw [if_neg hz]
    refine ⟨{ s with
      winClaimedStake := Function.update s.winClaimedStake id
        (s.winClaimedStake id + b.stake w m.sender)
      paidOut := Function.update s.paidOut id (s.paidOut id + b.payout w m.sender) }, ?_, rfl⟩
    have hwp := winnerPayout_succeeds (W := b.pool w)
      (s.winClaimedStake id + b.stake w m.sender) hle hfit
    rw [← hpay] at hwp
    simp only [bind_ok, revertIf_ok, U256.add_ok, pure_ok]
    exact ⟨(), by omega, _, ⟨by omega, rfl⟩, _, hwp, _, ⟨by omega, rfl⟩, rfl⟩

/-- A payout is part of what the contract holds. -/
theorem payout_le_balance (hs : Solvent C s) (h : s.Represents id b)
    (hres : (s.duels id).status = .resolved) {a : Address} (hn : a ∉ b.claimed)
    (hent : b.Entitled (s.duels id).winnerIsA a) :
    b.payout (s.duels id).winnerIsA a ≤ s.usdc.balanceOf C.self := by
  have hout := Parimutuel.Book.outstanding_claim (h.winner_of_resolved hres) hent hn
  have hpot : s.outstanding id ≤ s.pots :=
    Mapping.le_sum (hs.wf.mem_duels (Status.exists_of_resolved hres))
  rw [h.outstanding hs.wf] at hpot
  rw [hs.balance, State.liabilities]
  omega

/-- The claim of an entitled account goes through and pays what the book says. -/
theorem claim_succeeds (hs : Solvent C s) (h : s.Represents id b)
    (hres : (s.duels id).status = .resolved) (hn : m.sender ∉ b.claimed)
    (hent : b.Entitled (s.duels id).winnerIsA m.sender) (hT : b.total < 2 ^ 256)
    (hfit : s.betOf id (s.duels id).winnerIsA m.sender * b.total < 2 ^ 256) :
    ∃ s', claim C s m id = .ok (s', b.payout (s.duels id).winnerIsA m.sender) := by
  obtain ⟨s₁, hpay, husdc⟩ := claimPayout_succeeds h hres hn hent hT hfit
  have hpos := Parimutuel.Book.payout_pos hent hn
  have hle := payout_le_balance hs h hres hn hent
  rw [← husdc] at hle
  obtain ⟨usdc, hu⟩ := Token.safeTransfer_succeeds (ε := Error) hs.wf.self_ne m.sender_ne hle
  have hcl : ¬ s.claimed id m.sender = true := fun hc => hn ((h.claimed _).mpr hc)
  refine ⟨{ s₁ with
    usdc
    claimed := Function.update s₁.claimed id
      (Function.update (s₁.claimed id) m.sender true) }, ?_⟩
  have hW : (if (s.duels id).winnerIsA = true then (s.duels id).poolA else (s.duels id).poolB) =
      b.pool (s.duels id).winnerIsA := h.pool _
  simp only [claim, bind_ok, revertIf_ok, existingDuel_ok, U256.add_ok, pure_ok, Prod.exists,
    Prod.mk.injEq, not_not]
  refine ⟨_, ⟨rfl, by simp [hres]⟩, (), hres, (), hcl, _, ⟨?_, rfl⟩, s₁, _, ?_, (), by omega, usdc,
    hu, rfl, rfl⟩
  · rw [h.total]; exact hT
  · rw [h.total]
    show claimPayout s m id (s.duels id).winnerIsA
      (if (s.duels id).winnerIsA = true then _ else _) b.total = _
    rw [hW]
    exact hpay

/-- A second claim reverts. -/
theorem claim_alreadyClaimed (hres : (s.duels id).status = .resolved)
    (hcl : s.claimed id m.sender = true) :
    claim C s m id = .error (.custom .alreadyClaimed) := by
  have hex : s.existingDuel id = .ok (s.duels id) := existingDuel_ok.mpr ⟨rfl, by simp [hres]⟩
  rw [claim, hex, ok_bind, revertIf_neg (by simp [hres]), ok_bind, revertIf_pos hcl, error_bind]

/-- A claim with nothing to pay reverts: the refunds of both sides are zero, or there is no stake
on the winning side. -/
theorem claimPayout_nothing (id : ℕ) (w : Bool) (W T : ℕ)
    (h0 : W = 0 → s.betOf id true m.sender + s.betOf id false m.sender = 0)
    (h1 : W ≠ 0 → s.betOf id w m.sender = 0) :
    claimPayout s m id w W T = .ok (s, 0) ∨
      claimPayout s m id w W T = .error (.custom .nothingToClaim) := by
  by_cases hz : W = 0
  · left
    rw [claimPayout, if_pos hz]
    simp only [bind_ok, U256.add_ok, pure_ok]
    exact ⟨0, ⟨by have := h0 hz; omega, h0 hz⟩, rfl⟩
  · right
    simp only [claimPayout]
    rw [if_neg hz, revertIf_pos (h1 hz), error_bind]

/-- A claim of an account with nothing to claim reverts. -/
theorem claim_nothingToClaim (h : s.Represents id b) (hres : (s.duels id).status = .resolved)
    (hcl : s.claimed id m.sender = false) (hT : b.total < 2 ^ 256)
    (hent : ¬ b.Entitled (s.duels id).winnerIsA m.sender) :
    claim C s m id = .error (.custom .nothingToClaim) := by
  have hex : s.existingDuel id = .ok (s.duels id) := existingDuel_ok.mpr ⟨rfl, by simp [hres]⟩
  have hadd : (U256.add (s.duels id).poolA (s.duels id).poolB : Tx Error ℕ) = .ok b.total :=
    U256.add_ok.mpr ⟨h.total ▸ hT, h.total⟩
  have hW : (s.duels id).winningPool = b.pool (s.duels id).winnerIsA := h.pool _
  have hnone := claimPayout_nothing (s := s) (m := m) id (s.duels id).winnerIsA
    (s.duels id).winningPool b.total ?_ ?_
  · rw [claim, hex, ok_bind, revertIf_neg (by simp [hres]), ok_bind, revertIf_neg (by simp [hcl]),
      ok_bind]
    simp only [hadd, ok_bind]
    show (claimPayout s m id (s.duels id).winnerIsA (s.duels id).winningPool b.total >>= _) = _
    rcases hnone with hp | hp
    · rw [hp, ok_bind]
      exact error_bind _ _
    · rw [hp, error_bind]
  · intro hz
    by_contra hne
    refine hent ⟨fun _ => ?_, fun h' => absurd (hW ▸ hz) h'⟩
    rw [Parimutuel.Book.both, h.stake]
    omega
  · intro hz
    by_contra hne
    refine hent ⟨fun h' => absurd h' (hW ▸ hz), fun _ => ?_⟩
    rw [h.stake]
    omega

end Claim

/-! ## The bets and the claims of a run -/

/-- What `a` bets by the call on a side of duel `id`. -/
def Event.betBy (id : ℕ) (side : Bool) (a : Address) (e : Event) : ℕ :=
  match e.call with
  | .bet id' onA amount => if id' = id ∧ onA = side ∧ e.msg.sender = a then amount else 0
  | _ => 0

/-- The accepted bets of `a` on a side of duel `id`, added up. -/
def betsOn (id : ℕ) (side : Bool) (a : Address) (tr : List (Trace.Step State Event)) : ℕ :=
  (tr.map (·.ev.betBy id side a)).sum

theorem Event.onBook_stakeOf (s : State) (id : ℕ) (side : Bool) (a : Address) (e : Event) :
    ((e.onBook s id).map (·.stakeOf side a)).getD 0 = e.betBy id side a := by
  unfold Event.onBook Event.betBy
  cases e.call with
  | bet id' onA amount =>
    dsimp only
    by_cases hid : id' = id
    · simp [hid, Parimutuel.Event.stakeOf]
    · simp [hid]
  | resolve id' | claim id' => dsimp only; split <;> rfl
  | _ => rfl

theorem staked_bookEvents (id : ℕ) (side : Bool) (a : Address)
    (tr : List (Trace.Step State Event)) :
    Parimutuel.staked (bookEvents id tr) side a = betsOn id side a tr := by
  induction tr with
  | nil => rfl
  | cons st tr ih =>
    rw [betsOn, List.map_cons, List.sum_cons, ← betsOn, ← ih,
      ← Event.onBook_stakeOf st.pre id side a st.ev, bookEvents, List.filterMap_cons]
    cases st.ev.onBook st.pre id with
    | none => simp [bookEvents]
    | some ev => simp [Parimutuel.staked, bookEvents]

/-! ## Exact payouts -/

/-- Somebody other than `a`, and not among the claimants in `before`, has a stake on `side`. -/
def State.Waiting (s : State) (id : ℕ) (side : Bool) (before : List (Address × ℕ)) (a : Address) :
    Prop :=
  ∃ x, 0 < s.betOf id side x ∧ x ≠ a ∧ x ∉ before.map Prod.fst

/-- What holds of the claims on a resolved duel in the run `tr` to `s`, in terms of the duel's
stakes: `W` is the winning pool, `T` the sum of both pools. -/
structure ExactPayouts (C : Config) (tr : List (Trace.Step State Event)) (s : State) (id : ℕ)
    (w : Bool) (W T : ℕ) : Prop where
  /-- The stakes are the bets, and the pools are the stakes. -/
  stakes : ∀ side a, s.betOf id side a = betsOn id side a tr
  winningPool : W = ∑ a, s.betOf id w a
  totalPool : T = ∑ a, s.betOf id true a + ∑ a, s.betOf id false a
  /-- No account is paid twice. -/
  once : ((claimsOn id tr).map Prod.fst).Nodup
  /-- A paid account has a stake on the winning side, unless that side is empty. -/
  winners : W ≠ 0 → ∀ x ∈ claimsOn id tr, 0 < s.betOf id w x.1
  /-- A winner before the last one gets its share rounded down. -/
  share : W ≠ 0 → ∀ before a p after, claimsOn id tr = before ++ (a, p) :: after →
    s.Waiting id w before a → p = s.betOf id w a * T / W
  /-- The last one gets the residual. -/
  residual : W ≠ 0 → ∀ before a p after, claimsOn id tr = before ++ (a, p) :: after →
    ¬ s.Waiting id w before a → p + (before.map Prod.snd).sum = T ∧
      s.betOf id w a * T / W ≤ p ∧
      p < s.betOf id w a * T / W + (Finset.univ.filter (0 < s.betOf id w ·)).card
  /-- The winners' payouts add up to the pot. -/
  exhausted : W ≠ 0 → (∀ x, 0 < s.betOf id w x → x ∈ (claimsOn id tr).map Prod.fst) →
    ((claimsOn id tr).map Prod.snd).sum = T
  /-- With an empty winning pool everybody gets its own stakes. -/
  refund : W = 0 → ∀ x ∈ claimsOn id tr, x.2 = s.betOf id true x.1 + s.betOf id false x.1
  /-- The payouts reach the claimants. -/
  received : ∀ st ∈ tr, st.ev.call = .claim id →
    st.post.usdc.balanceOf st.ev.msg.sender = st.pre.usdc.balanceOf st.ev.msg.sender + st.ev.ret
  /-- A further claim of a paid account reverts. -/
  twice : ∀ m : Msg, m.sender ∈ (claimsOn id tr).map Prod.fst →
    claim C s m id = .error (.custom .alreadyClaimed)
  /-- So does the claim of an account with nothing to get. -/
  nothing : ∀ m : Msg, m.sender ∉ (claimsOn id tr).map Prod.fst →
    (if W = 0 then s.betOf id true m.sender + s.betOf id false m.sender
      else s.betOf id w m.sender) = 0 →
    claim C s m id = .error (.custom .nothingToClaim)
  /-- Any other claim goes through: there is no underflow, overflow or failed transfer. -/
  paid : ∀ m : Msg, m.sender ∉ (claimsOn id tr).map Prod.fst →
    (if W = 0 then s.betOf id true m.sender + s.betOf id false m.sender
      else s.betOf id w m.sender) ≠ 0 → ∃ s' p, claim C s m id = .ok (s', p)

section Runs

variable {C : Config} {s₀ s : State} {tr : List (Trace.Step State Event)} {id : ℕ}

theorem Run.poolsFit (h₀ : Deployed C s₀) (h : Run C s₀ tr s) : PoolsFit s := by
  refine h.history (P := fun _ s => PoolsFit s) ?_ fun tr s e s' hr ih hst => ?_
  · intro id side
    rw [h₀.eq_initial]
    cases side <;> exact Nat.two_pow_pos 256
  · have hwf := Run.wellFormed h₀ hr
    exact ih.step hwf (hst.effect hwf)

/-- The pot fits a `uint256` when every winning stake times the pot does. -/
theorem total_lt {b : Parimutuel.Book Address} (h : s.Represents id b) (hp : PoolsFit s) (w : Bool)
    (hfit : ∀ a, s.betOf id w a * b.total < 2 ^ 256) : b.total < 2 ^ 256 := by
  by_cases hz : b.pool w = 0
  · have := hp id (!w)
    rw [h.pool] at this
    unfold Parimutuel.Book.total
    cases w <;> simp_all
  · obtain ⟨a, -, ha⟩ := Finset.exists_ne_zero_of_sum_ne_zero hz
    rw [h.stake] at ha
    exact (Nat.le_mul_of_pos_left _ (Nat.pos_of_ne_zero ha)).trans_lt (hfit a)

/-- A bettor's stake is part of the pool. -/
theorem Run.betOf_le (h₀ : Deployed C s₀) (h : Run C s₀ tr s) (id : ℕ) (side : Bool) (a : Address) :
    s.betOf id side a ≤ (s.duels id).pool side := by
  obtain ⟨b, -, hrep⟩ := Run.reach h₀ h id
  rw [hrep.pool, ← hrep.stake]
  exact Mapping.le_sum (Finset.mem_univ a)

/-- The payout of a claim reaches the claimant. -/
theorem Run.received (h₀ : Deployed C s₀) (h : Run C s₀ tr s) :
    ∀ st ∈ tr, ∀ id, st.ev.call = .claim id →
      st.post.usdc.balanceOf st.ev.msg.sender =
        st.pre.usdc.balanceOf st.ev.msg.sender + st.ev.ret := by
  refine h.forall_mem ?_
  intro tr s e s' hr hst id hc
  have hm := hst.1.1
  cases hst.effect (Run.wellFormed h₀ hr) with
  | claim x newClaimed paid usdc _ _ _ _ _ hu => exact hu.dst hm.symm
  | _ => simp_all [Call.setter]

/-- Payouts are exact for every set of bets and every order of claims on a resolved duel. -/
theorem payouts_exact (h₀ : Deployed C s₀) (h : Run C s₀ tr s)
    (hres : (s.duels id).status = .resolved)
    (hfit : ∀ a, s.betOf id (s.duels id).winnerIsA a *
      ((s.duels id).poolA + (s.duels id).poolB) < 2 ^ 256) :
    ExactPayouts C tr s id (s.duels id).winnerIsA (s.duels id).winningPool
      ((s.duels id).poolA + (s.duels id).poolB) := by
  obtain ⟨b, hb, hrep⟩ := Run.reach h₀ h id
  have hset : Parimutuel.Reach.Settled b (claimsOn id tr) := payouts_bookEvents id tr ▸ hb.settled
  have hs := Run.solvent h₀ h
  have hw := hrep.winner_of_resolved hres
  have hW : (s.duels id).winningPool = b.pool (s.duels id).winnerIsA := hrep.pool _
  rw [hrep.total] at hfit ⊢
  rw [hW]
  have hT := total_lt hrep (Run.poolsFit h₀ h) _ hfit
  have hmem : ∀ a, a ∈ (claimsOn id tr).map Prod.fst ↔ s.claimed id a = true := fun a => by
    rw [← hset.claimed, hrep.claimed]
  have hwait : ∀ {before a}, ¬ s.Waiting id (s.duels id).winnerIsA before a →
      ∀ x, 0 < b.stake (s.duels id).winnerIsA x → x = a ∨ x ∈ before.map Prod.fst := by
    intro before a hn x hx
    rw [hrep.stake] at hx
    by_contra hne
    rw [not_or] at hne
    exact hn ⟨x, hx, hne.1, hne.2⟩
  have hclaimed : ∀ x ∈ claimsOn id tr, b.Entitled (s.duels id).winnerIsA x.1 := fun x hx =>
    hset.entitled _ hw x.1 ((hset.claimed _).mpr (List.mem_map_of_mem hx))
  refine { stakes := ?_, winningPool := ?_, totalPool := ?_, once := hset.nodup, winners := ?_,
           share := ?_, residual := ?_, exhausted := ?_, refund := ?_,
           received := fun st hm hc => Run.received h₀ h st hm id hc, twice := ?_, nothing := ?_,
           paid := ?_ }
  · intro side a
    rw [← hrep.stake, hb.stake, staked_bookEvents]
  · rw [← hrep.stake]; rfl
  · rw [← hrep.stake]; rfl
  · intro hz x hx
    rw [← hrep.stake]
    exact (hclaimed x hx).2 hz
  · intro hz before a p after hL hx
    obtain ⟨x, hpos, hne, hnb⟩ := hx
    rw [← hrep.stake] at hpos ⊢
    exact hset.share hw hz hL ⟨x, hpos, hne, hnb⟩
  · intro hz before a p after hL hx
    have hdust := hset.dust hw hz hL
    rw [hrep.stake] at hdust
    exact ⟨hset.residual hw hz hL (hwait hx), hdust⟩
  · intro hz hall
    rw [← hrep.stake] at hall
    exact hset.exhausted hw hz hall
  · intro hz x hx
    obtain ⟨before, after, hL⟩ := List.append_of_mem hx
    rw [hset.ordered _ hw before x.1 x.2 after hL, Parimutuel.Book.payoutAfter_of_empty hz,
      Parimutuel.Book.both, hrep.stake]
  · intro m hm
    exact claim_alreadyClaimed hres ((hmem _).mp hm)
  · intro m hm hz
    rw [hmem, Bool.not_eq_true] at hm
    refine claim_nothingToClaim hrep hres hm hT ?_
    intro hent
    rw [Parimutuel.Book.entitled_iff, Parimutuel.Book.both, hrep.stake] at hent
    exact hent hz
  · intro m hm hz
    have hent : b.Entitled (s.duels id).winnerIsA m.sender := by
      rw [Parimutuel.Book.entitled_iff, Parimutuel.Book.both, hrep.stake]
      exact hz
    obtain ⟨s', hc⟩ := claim_succeeds hs hrep hres (mt (hset.claimed _).mp hm) hent hT
      (hfit m.sender)
    exact ⟨s', _, hc⟩

end Runs

namespace Demo

/-- Two bettors on the winning side, one of them also on the other, and their claims. -/
def payouts : List (Msg × Call) :=
  funding ++ [(.of 0xDA 1, .registerAgent 0xA1),
    (.of 0xDB 1, .registerAgent 0xA2),
    (.of 0xBEEF 2, .createDuel 0xA1 0xA2 10 10),
    (.of 0xE1 3, .bet 1 true 1),
    (.of 0xE2 3, .bet 1 true 2),
    (.of 0xE2 3, .bet 1 false 4),
    (.of 0xBEEF 30, .resolve 1),
    (.of 0xE1 31, .claim 1),
    (.of 0xE2 31, .claim 1)]

/-- Of a pot of 7, a stake of 1 in 3 gets 2, and the last claimant gets 5. -/
theorem payouts_eq : ∃ tr s, Run config start tr s ∧ claimsOn 1 tr = [(0xE1, 2), (0xE2, 5)] ∧
    ExactPayouts config tr s 1 true 3 7 := by
  have h : (play config start payouts).map (fun r => (claimsOn 1 r.1,
      (r.2.duels 1).status, (r.2.duels 1).winnerIsA, (r.2.duels 1).poolA, (r.2.duels 1).poolB)) =
      some ([(0xE1, 2), (0xE2, 5)], .resolved, true, 3, 4) := by decide +kernel
  obtain ⟨r, hr, hv⟩ := Option.map_eq_some_iff.mp h
  simp only [Prod.mk.injEq] at hv
  obtain ⟨hclaims, hres, hw, hA, hB⟩ := hv
  have hrun := Run.of_play hr
  have hW : (r.2.duels 1).winningPool = 3 := by rw [Duel.winningPool, hw]; exact hA
  have hexact := payouts_exact deployed hrun hres fun a => by
    have := Run.betOf_le deployed hrun 1 true a
    have hp : (r.2.duels 1).pool true = 3 := hA
    rw [hw, hA, hB]
    omega
  rw [hw, hW, hA, hB] at hexact
  exact ⟨r.1, r.2, hrun, hclaims, hexact⟩

end Demo

end Colosseum
end Arcane
