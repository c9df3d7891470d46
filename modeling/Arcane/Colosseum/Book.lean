import Arcane.Colosseum.WellFormed
import Arcane.Lib.Parimutuel

/-!
# The bets of a duel are a parimutuel book

`State.Represents s id b`: the pools, stakes, claims and counters that the contract keeps for duel
`id` are those of the parimutuel book `b`. Every step of the contract is a step of the book of
each duel, or leaves it alone (`Represents.step`), so a run of the contract is a run of every book
(`Run.reach`), and what holds of books holds of duels.
-/

namespace Arcane
namespace Colosseum

open Evm

/-- What an accepted call in state `s` is for the book of duel `id`. -/
def Event.onBook (s : State) (id : ℕ) (e : Event) : Option (Parimutuel.Event Address) :=
  match e.call with
  | .bet id' onA amount => if id' = id then some (.bet onA e.msg.sender amount) else none
  | .resolve id' =>
    if id' = id then some (.close (decide ((s.duels id).alpha = (s.duels id).agentA))) else none
  | .claim id' => if id' = id then some (.claim e.msg.sender e.ret) else none
  | _ => none

theorem Event.onBook_of_setter {s : State} {id : ℕ} {e : Event} (h : e.call.setter = true) :
    e.onBook s id = none := by
  unfold Event.onBook
  cases hc : e.call <;> simp_all [Call.setter]

/-- The events of a run for the book of duel `id`. -/
def bookEvents (id : ℕ) (tr : List (Trace.Step State Event)) : List (Parimutuel.Event Address) :=
  tr.filterMap fun st => st.ev.onBook st.pre id

/-- The winning side, once the duel is resolved. -/
def Duel.outcome (d : Duel) : Option Bool := if d.status = .resolved then some d.winnerIsA else none

structure State.Represents (s : State) (id : ℕ) (b : Parimutuel.Book Address) : Prop where
  stake : b.stake = s.betOf id
  winner : b.winner = (s.duels id).outcome
  claimed : ∀ a, a ∈ b.claimed ↔ s.claimed id a = true
  pool : ∀ side, (s.duels id).pool side = b.pool side
  counters : ∀ w, b.winner = some w → b.pool w ≠ 0 →
    s.winClaimedStake id = ∑ a ∈ b.claimed, b.stake w a ∧ s.paidOut id = b.paid w
  idle : b.winner = none → s.winClaimedStake id = 0 ∧ s.paidOut id = 0

/-- Two states that keep the same book for duel `id`. -/
structure SameBook (s s' : State) (id : ℕ) : Prop where
  outcome : (s'.duels id).outcome = (s.duels id).outcome
  pool : ∀ side, (s'.duels id).pool side = (s.duels id).pool side
  betOf : s'.betOf id = s.betOf id
  claimed : s'.claimed id = s.claimed id
  winClaimedStake : s'.winClaimedStake id = s.winClaimedStake id
  paidOut : s'.paidOut id = s.paidOut id

namespace SameBook

variable {s s' s'' : State} {id : ℕ}

theorem trans (h : SameBook s s' id) (h' : SameBook s' s'' id) : SameBook s s'' id where
  outcome := h'.outcome.trans h.outcome
  pool side := (h'.pool side).trans (h.pool side)
  betOf := h'.betOf.trans h.betOf
  claimed := h'.claimed.trans h.claimed
  winClaimedStake := h'.winClaimedStake.trans h.winClaimedStake
  paidOut := h'.paidOut.trans h.paidOut

/-- A write to duel `x` that the book of `id` does not read. -/
theorem of_duel {s' : State} {x : ℕ} {d : Duel} (hd : s'.duels = Function.update s.duels x d)
    (h : id = x → d.outcome = (s.duels x).outcome ∧ ∀ side, d.pool side = (s.duels x).pool side)
    (hb : s'.betOf id = s.betOf id := by rfl) (hc : s'.claimed id = s.claimed id := by rfl)
    (hw : s'.winClaimedStake id = s.winClaimedStake id := by rfl)
    (hp : s'.paidOut id = s.paidOut id := by rfl) : SameBook s s' id := by
  by_cases hx : id = x
  · obtain ⟨ho, hs⟩ := h hx
    subst hx
    exact ⟨by rw [hd, Function.update_self, ho], by rw [hd, Function.update_self]; exact hs,
      hb, hc, hw, hp⟩
  · have : s'.duels id = s.duels id := by rw [hd, Function.update_of_ne hx]
    exact ⟨by rw [this], by rw [this]; exact fun _ => rfl, hb, hc, hw, hp⟩

theorem represents {b : Parimutuel.Book Address} (h : SameBook s s' id)
    (hr : s.Represents id b) : s'.Represents id b where
  stake := hr.stake.trans h.betOf.symm
  winner := hr.winner.trans h.outcome.symm
  claimed a := by rw [h.claimed]; exact hr.claimed a
  pool side := (h.pool side).trans (hr.pool side)
  counters w hw hz := by rw [h.winClaimedStake, h.paidOut]; exact hr.counters w hw hz
  idle hw := by rw [h.winClaimedStake, h.paidOut]; exact hr.idle hw

theorem settled {C : Config} {agent : Address} {x i : ℕ} {surv : Bool}
    (h : Settled C s x agent i surv s') : SameBook s s' id := by
  cases h <;> exact ⟨rfl, fun _ => rfl, rfl, rfl, rfl, rfl⟩

end SameBook

/-- A call that is no event of the book leaves it alone. -/
theorem Effect.sameBook {C : Config} {s s' : State} {e : Event} {id : ℕ} (hwf : WellFormed C s)
    (h : Effect C s e s') (he : e.onBook s id = none) : SameBook s s' id := by
  cases h with
  | register | inject | fund | params | token =>
    exact ⟨rfl, fun _ => rfl, rfl, rfl, rfl, rfl⟩
  | create agentA agentB bettingSecs tradingSecs hc hne hA hB hret =>
    refine .of_duel rfl ?_
    intro _
    rw [(hwf.blank _ hwf.next_blank).1]
    exact ⟨rfl, fun _ => rfl⟩
  | report x agent i rBps ing surv failed scoreA scoreB ingested survived failures s' hc hlive _ _
      hs =>
    refine SameBook.trans ?_ (.settled hs)
    refine .of_duel rfl ?_
    intro _
    exact ⟨rfl, fun _ => rfl⟩
  | resolve x usdc shieldWinner hc hlive _ _ _ =>
    refine .of_duel rfl ?_
    intro hx
    simp [Event.onBook, hc, hx] at he
  | bet x onA amount usdc hc hlive _ _ _ =>
    have hx : id ≠ x := by
      rintro rfl
      simp [Event.onBook, hc] at he
    exact .of_duel rfl (fun h => absurd h hx) (Function.update_of_ne hx _ _)
  | claim x newClaimed paid usdc hc _ _ _ _ _ =>
    have hx : id ≠ x := by
      rintro rfl
      simp [Event.onBook, hc] at he
    exact ⟨rfl, fun _ => rfl, rfl, Function.update_of_ne hx _ _, Function.update_of_ne hx _ _,
      Function.update_of_ne hx _ _⟩

/-! ## A step of the contract is a step of the book -/

namespace State.Represents

variable {C : Config} {s s' : State} {e : Event} {id : ℕ} {b : Parimutuel.Book Address}

theorem poolA (h : s.Represents id b) : (s.duels id).poolA = b.pool true := h.pool true

theorem poolB (h : s.Represents id b) : (s.duels id).poolB = b.pool false := h.pool false

theorem total (h : s.Represents id b) : (s.duels id).poolA + (s.duels id).poolB = b.total := by
  rw [h.poolA, h.poolB]
  rfl

theorem winner_of_live (h : s.Represents id b) (hl : (s.duels id).status = .live) :
    b.winner = none := by
  rw [h.winner]
  simp [Duel.outcome, hl]

theorem winner_of_resolved (h : s.Represents id b) (hl : (s.duels id).status = .resolved) :
    b.winner = some (s.duels id).winnerIsA := by
  rw [h.winner]
  simp [Duel.outcome, hl]

/-- The claim that the contract accepts is the claim of the book. -/
theorem claim (h : s.Represents id b) {a : Address} {newClaimed paid payout : ℕ}
    (hres : (s.duels id).status = .resolved) (hcl : s.claimed id a = false)
    (hent : s.Entitled id a newClaimed paid payout) (hpos : 0 < payout) :
    b.Entitled (s.duels id).winnerIsA a ∧ a ∉ b.claimed ∧
      payout = b.payout (s.duels id).winnerIsA a ∧
      (b.pool (s.duels id).winnerIsA ≠ 0 →
        newClaimed = ∑ x ∈ b.claimed, b.stake (s.duels id).winnerIsA x +
          b.stake (s.duels id).winnerIsA a ∧
        paid = b.paid (s.duels id).winnerIsA + payout) := by
  have hw := h.winner_of_resolved hres
  have hn : a ∉ b.claimed := by simp [h.claimed, hcl]
  have hW : (s.duels id).winningPool = b.pool (s.duels id).winnerIsA := h.pool _
  simp only [State.Entitled, hW, h.total, ← h.stake] at hent
  rcases hent with ⟨hz, -, -, rfl⟩ | ⟨hz, hmine, rfl, rfl, -, rfl⟩
  · refine ⟨⟨fun _ => hpos, fun hne => absurd hz hne⟩, hn, ?_, fun hne => absurd hz hne⟩
    · exact (Parimutuel.Book.payoutAfter_of_empty hz _ _).symm
  · obtain ⟨hcw, hpo⟩ := h.counters _ hw hz
    refine ⟨⟨fun h0 => absurd h0 hz, fun _ => hmine⟩, hn, ?_,
      fun _ => ⟨by rw [hcw], by rw [hpo]⟩⟩
    · rw [Parimutuel.Book.payout, Parimutuel.Book.payoutAfter_of_pool hz, hcw, hpo]
      rfl

/-- A bet on the live duel is a bet in the book. -/
theorem bet (h : s.Represents id b) {onA : Bool} {a : Address} {amount : ℕ} {usdc : Token}
    (hw : b.winner = none) (hl : (s.duels id).status = .live) :
    State.Represents { s with
      usdc
      betOf := Function.update s.betOf id (Function.update (s.betOf id) onA
        (Function.update (s.betOf id onA) a (s.betOf id onA a + amount)))
      duels := Function.update s.duels id (if onA
        then { s.duels id with poolA := (s.duels id).poolA + amount }
        else { s.duels id with poolB := (s.duels id).poolB + amount }) }
      id (b.bet hw onA a amount) where
  stake := by simp [Parimutuel.Book.bet, h.stake]
  winner := by cases onA <;> simp [Parimutuel.Book.bet, Duel.outcome, hl]
  claimed x := by
    have := h.claimed x
    rw [b.unclaimed hw] at this
    exact this
  pool side := by
    have := h.pool side
    rw [Parimutuel.Book.pool_bet, ← this]
    cases onA <;> cases side <;> simp [Duel.pool]
  counters w hw' := by cases hw'
  idle _ := h.idle hw

/-- The resolution of the duel closes the book. -/
theorem close (h : s.Represents id b) {w : Bool} {duels : ℕ → Duel} (hw : b.winner = none)
    (ho : (duels id).outcome = some w)
    (hp : ∀ side, (duels id).pool side = (s.duels id).pool side) (usdc : Token)
    (agents : Address → AgentInfo) (prizePool : ℕ → ℕ) :
    State.Represents { s with usdc, duels, agents, prizePool } id (b.close w) where
  stake := h.stake
  winner := ho.symm
  claimed x := by
    have := h.claimed x
    rw [b.unclaimed hw] at this
    exact this
  pool side := (hp side).trans (h.pool side)
  counters w' hw' _ := by
    cases hw'
    rw [Parimutuel.Book.paid_close]
    exact ⟨by simp [Parimutuel.Book.close, (h.idle hw).1], (h.idle hw).2⟩
  idle hw' := by cases hw'

/-- A claim writes the counters of the book. -/
theorem claimed_by (h : s.Represents id b) {a : Address} {w : Bool} {newClaimed paid payout : ℕ}
    (hw : b.winner = some w) (ha : b.Entitled w a) (hn : a ∉ b.claimed)
    (hp : payout = b.payout w a)
    (hcount : b.pool w ≠ 0 →
      newClaimed = ∑ x ∈ b.claimed, b.stake w x + b.stake w a ∧ paid = b.paid w + payout)
    (usdc : Token) :
    State.Represents { s with
      usdc
      winClaimedStake := Function.update s.winClaimedStake id newClaimed
      paidOut := Function.update s.paidOut id paid
      claimed := Function.update s.claimed id (Function.update (s.claimed id) a true) }
      id (b.claim w a hw ha) where
  stake := h.stake
  winner := hw.symm.trans h.winner
  claimed x := by
    by_cases hx : x = a
    · subst hx
      simp [Parimutuel.Book.claim]
    · simp [Parimutuel.Book.claim, hx, h.claimed]
  pool := h.pool
  counters w' hw' hz := by
    cases hw'
    obtain ⟨hcl, hpaid⟩ := hcount hz
    simp only [Function.update_self]
    rw [Parimutuel.Book.paid_claim hw ha hn, Parimutuel.Book.sum_claimed hn, ← hp]
    exact ⟨hcl, hpaid⟩
  idle hw' := by cases hw'

/-- Every effect is a step of the book, or leaves it alone. -/
theorem step (hwf : WellFormed C s) (h : s.Represents id b) (he : Effect C s e s') :
    ∃ b', s'.Represents id b' ∧
      match e.onBook s id with
      | none => b' = b
      | some ev => Parimutuel.Step b ev b' := by
  cases hev : e.onBook s id with
  | none => exact ⟨b, (he.sameBook hwf hev).represents h, rfl⟩
  | some ev =>
    cases he with
    | register _ _ hc | create _ _ _ _ hc | report _ _ _ _ _ _ _ _ _ _ _ _ _ hc
    | inject _ _ _ _ _ hc | fund _ _ _ hc | token _ _ hc => simp [Event.onBook, hc] at hev
    | params _ _ _ _ _ _ hc => rw [Event.onBook_of_setter hc] at hev; cases hev
    | resolve x usdc shieldWinner hc hl _ _ _ =>
      obtain ⟨rfl, rfl⟩ : x = id ∧ _ = ev := by simpa [Event.onBook, hc] using hev
      have hw := h.winner_of_live hl
      refine ⟨_, h.close hw ?_ ?_ usdc _ _, .close hw _⟩
      · simp [Duel.outcome, Duel.winnerIsA]
      · intro side
        simp [Duel.pool]
    | bet x onA amount usdc hc hl _ _ _ =>
      obtain ⟨rfl, rfl⟩ : x = id ∧ _ = ev := by simpa [Event.onBook, hc] using hev
      have hw := h.winner_of_live hl
      exact ⟨_, h.bet hw hl, .bet hw onA _ amount⟩
    | claim x newClaimed paid usdc hc hres hcl hent hpos _ =>
      obtain ⟨rfl, rfl⟩ : x = id ∧ _ = ev := by simpa [Event.onBook, hc] using hev
      have hw := h.winner_of_resolved hres
      obtain ⟨ha, hn, hp, hcount⟩ := h.claim hres hcl hent hpos
      exact ⟨_, h.claimed_by hw ha hn hp hcount usdc, hp ▸ Parimutuel.Step.claim hw ha hn⟩

/-- No duel has bets when the contract is deployed. -/
theorem deployed (h : Deployed C s) (id : ℕ) : s.Represents id .empty := by
  rw [h.eq_initial]
  exact {
    stake := rfl
    winner := rfl
    claimed := fun a => by simp [Parimutuel.Book.empty, State.initial]
    pool := fun side => by
      cases side <;> simp [State.initial, Parimutuel.Book.pool, Parimutuel.Book.empty, Duel.pool,
        Duel.empty]
    counters := fun _ hw => by cases hw
    idle := fun _ => ⟨rfl, rfl⟩ }

end State.Represents

/-- A run of the contract is a run of the book of each duel. -/
theorem Run.reach {C : Config} {s₀ s : State} {tr : List (Trace.Step State Event)}
    (h₀ : Deployed C s₀) (h : Run C s₀ tr s) (id : ℕ) :
    ∃ b, Parimutuel.Reach (bookEvents id tr) b ∧ s.Represents id b := by
  refine h.history (P := fun tr s => ∃ b, Parimutuel.Reach (bookEvents id tr) b ∧
    s.Represents id b) ⟨_, .nil, .deployed h₀ id⟩ ?_
  rintro tr s e s' hr ⟨b, hb, hrep⟩ hst
  have hwf := Run.wellFormed h₀ hr
  obtain ⟨b', hrep', hstep⟩ := hrep.step hwf (hst.effect hwf)
  refine ⟨b', ?_, hrep'⟩
  rw [bookEvents, List.filterMap_append, ← bookEvents]
  cases hev : e.onBook s id with
  | none =>
    rw [hev] at hstep
    subst hstep
    simpa [hev] using hb
  | some ev =>
    rw [hev] at hstep
    simpa [hev] using hb.snoc hstep

/-! ## The claims of a run -/

/-- The accepted claims on duel `id` in order: the claimant and what the contract returned. -/
def claimsOn (id : ℕ) (tr : List (Trace.Step State Event)) : List (Address × ℕ) :=
  tr.filterMap fun st =>
    match st.ev.call with
    | .claim id' => if id' = id then some (st.ev.msg.sender, st.ev.ret) else none
    | _ => none

theorem payouts_bookEvents (id : ℕ) (tr : List (Trace.Step State Event)) :
    Parimutuel.payouts (bookEvents id tr) = claimsOn id tr := by
  unfold Parimutuel.payouts bookEvents claimsOn
  rw [List.filterMap_filterMap]
  apply List.filterMap_congr
  intro st _
  unfold Event.onBook
  cases st.ev.call <;> first | rfl | (dsimp only; split <;> rfl)

/-- The claims of a run are those of the book of the duel. -/
theorem Run.settled {C : Config} {s₀ s : State} {tr : List (Trace.Step State Event)}
    (h₀ : Deployed C s₀) (h : Run C s₀ tr s) (id : ℕ) :
    ∃ b, s.Represents id b ∧ Parimutuel.Reach.Settled b (claimsOn id tr) := by
  obtain ⟨b, hb, hrep⟩ := Run.reach h₀ h id
  exact ⟨b, hrep, payouts_bookEvents id tr ▸ hb.settled⟩

end Colosseum
end Arcane
