import Arcane.Colosseum.Frame
import Arcane.Colosseum.Payout
import Arcane.Lib.Doubles
import Arcane.Web.Chain

/-!
# A duel on the page

`useActiveDuel`, `duelPhase` and `useClaimPosition` of `web/apps/web/src/lib/colosseum.ts`, which
tell the visitor what the Colosseum will accept. Ids and times are numbers of JavaScript there, so
what is shown is exact while they are below `2 ^ 53`.

* `duelPhase_ofInt`: the phase and the countdown in whole seconds, `phaseAt` and `secondsToNext`.
* `phase_gates`: the calls that the contract accepts in a phase.
* `phaseAt_countdown`: the phase changes when the countdown ends.
* `claimShown_of_book`: a position of a resolved duel and the claim of its account.
* `duel_shown`: all of it, in every reachable state.
-/

namespace Arcane
namespace Web

open Text Evm Colosseum

/-- A duel as `getDuel` answers it. -/
structure DuelAnswer where
  agentA : Str
  agentB : Str
  startAt : ℕ
  tradingStartsAt : ℕ
  endsAt : ℕ
  status : ℕ
  winner : Str
  shieldWinner : Str
  scoreA : ℤ
  scoreB : ℤ
  poolA : ℕ
  poolB : ℕ
  deriving DecidableEq

/-- A duel as the app holds it. -/
structure Duel (D : Type) extends DuelAnswer where
  duelId : D

inductive DuelPhase where
  | betting
  | trading
  | ended
  | resolved
  deriving DecidableEq

section

variable {D : Type} (N : Doubles D)

/-- The phase, its label, and the seconds to the next one. -/
def duelPhase (d : Duel D) (nowSec : D) : DuelPhase × Str × D :=
  if d.status = 2 then (.resolved, lit "resolved", N.ofInt 0)
  else
    let trading := N.ofInt d.tradingStartsAt
    let ends := N.ofInt d.endsAt
    if N.lt nowSec trading then (.betting, lit "betting · trading in", N.sub trading nowSec)
    else if N.lt nowSec ends then (.trading, lit "live · ends in", N.sub ends nowSec)
    else (.ended, lit "awaiting resolve", N.ofInt 0)

/-- The duel with the highest id; `getDuel` may revert. -/
def useActiveDuel [DecidableEq D] (duelCount : ℕ) (getDuel : ℕ → Option DuelAnswer) :
    Option (Option (Duel D)) :=
  let n := N.ofInt duelCount
  if n = N.ofInt 0 then some none
  else (getDuel (N.bigInt n).toNat).map fun d => some { d with duelId := n }

end

structure ClaimPosition where
  winnerIsA : Bool
  refund : Bool
  myStake : ℕ
  claimed : Bool
  claimable : Bool
  deriving DecidableEq

/-- The position of an account, from the duel and what `betOf` and `claimed` answer; none until the
duel is resolved. -/
def useClaimPosition {D α : Type} (N : Doubles D) (lower : Str → Str) (betOf : ℕ → Bool → α → ℕ)
    (claimed : ℕ → α → Bool) (duel : Option (Duel D)) (account : Option α) :
    Option ClaimPosition :=
  duel.bind fun d => account.bind fun acct =>
    if d.status = 2 then
      let duelId := (N.bigInt d.duelId).toNat
      let winnerIsA := decide (lower d.winner = lower d.agentA)
      let stakeA := betOf duelId true acct
      let stakeB := betOf duelId false acct
      let claimed := claimed duelId acct
      let winningPool := if winnerIsA then d.poolA else d.poolB
      let refund := decide (winningPool = 0)
      let myStake := if refund then stakeA + stakeB else if winnerIsA then stakeA else stakeB
      some { winnerIsA, refund, myStake, claimed, claimable := !claimed && decide (0 < myStake) }
    else none

/-! ## What the contract answers -/

def statusCode : Status → ℕ
  | .none => 0
  | .live => 1
  | .resolved => 2

section

variable {U : Unicode} (S : Checksum U)

/-- A duel of the contract as viem decodes it. -/
def duelOf (d : Colosseum.Duel) : DuelAnswer where
  agentA := S.text d.agentA
  agentB := S.text d.agentB
  startAt := d.startAt
  tradingStartsAt := d.tradingStartsAt
  endsAt := d.endsAt
  status := statusCode d.status
  winner := S.text d.winner
  shieldWinner := S.text d.shieldWinner
  scoreA := d.scoreA
  scoreB := d.scoreB
  poolA := d.poolA
  poolB := d.poolB

/-- The answer to `getDuel`. -/
def getDuel (s : State) (duelId : ℕ) : Option DuelAnswer :=
  (s.existingDuel duelId).toOption.map (duelOf S)

variable {D : Type} (N : Doubles D)

/-- The duel that the app holds under its id. -/
def readDuel (s : State) (duelId : ℕ) : Option (Duel D) :=
  (getDuel S s duelId).map fun d => { d with duelId := N.ofInt duelId }

variable {C : Config} {s₀ s s' : State} {tr tr' : List (Trace.Step State Event)} {id : ℕ} {m : Msg}

theorem getDuel_eq_some {d : DuelAnswer} :
    getDuel S s id = some d ↔ (s.duels id).status ≠ .none ∧ d = duelOf S (s.duels id) := by
  rw [getDuel, Option.map_eq_some_iff]
  simp only [toOption_eq_some, existingDuel_ok]
  constructor
  · rintro ⟨x, ⟨rfl, hex⟩, rfl⟩
    exact ⟨hex, rfl⟩
  · rintro ⟨hex, rfl⟩
    exact ⟨_, ⟨rfl, hex⟩, rfl⟩

theorem readDuel_eq_some {d : Duel D} :
    readDuel S N s id = some d ↔ (s.duels id).status ≠ .none ∧
      d = { duelOf S (s.duels id) with duelId := N.ofInt id } := by
  rw [readDuel, Option.map_eq_some_iff]
  simp only [getDuel_eq_some]
  constructor
  · rintro ⟨x, ⟨hex, rfl⟩, rfl⟩
    exact ⟨hex, rfl⟩
  · rintro ⟨hex, rfl⟩
    exact ⟨_, ⟨hex, rfl⟩, rfl⟩

/-! ## Phases -/

/-- The phase in whole seconds. -/
def phaseAt (d : DuelAnswer) (now : ℕ) : DuelPhase :=
  if d.status = 2 then .resolved
  else if now < d.tradingStartsAt then .betting
  else if now < d.endsAt then .trading
  else .ended

/-- The whole seconds to the next phase. -/
def secondsToNext (d : DuelAnswer) (now : ℕ) : ℕ :=
  match phaseAt d now with
  | .betting => d.tradingStartsAt - now
  | .trading => d.endsAt - now
  | .ended | .resolved => 0

theorem duelPhase_ofInt (d : Duel D) {now : ℕ} (hnow : now < 2 ^ 53) :
    (duelPhase N d (N.ofInt now)).1 = phaseAt d.toDuelAnswer now := by
  simp only [duelPhase, phaseAt, N.lt_ofInt hnow, decide_eq_true_eq]
  split_ifs <;> rfl

/-- The countdown is exact for a duel that ends by `2 ^ 53`. -/
theorem duelPhase_secondsToNext {d : Duel D} (hle : d.tradingStartsAt ≤ d.endsAt)
    (hends : d.endsAt ≤ 2 ^ 53) {now : ℕ} (hnow : now < 2 ^ 53) :
    (duelPhase N d (N.ofInt now)).2.2 = N.ofInt (secondsToNext d.toDuelAnswer now) := by
  have hsub {t : ℕ} (ht : t ≤ 2 ^ 53) (hlt : now < t) :
      N.sub (N.ofInt t) (N.ofInt now) = N.ofInt ((t - now : ℕ) : ℤ) := by
    rw [Nat.cast_sub hlt.le]
    refine N.sub_exact _ _ ?_ ?_ ?_ <;> rw [abs_le] <;> omega
  unfold duelPhase secondsToNext phaseAt
  simp only [N.lt_ofInt hnow, decide_eq_true_eq]
  by_cases hres : d.status = 2
  · simp only [if_pos hres, Nat.cast_zero]
  · simp only [if_neg hres]
    by_cases hbetting : now < d.tradingStartsAt
    · simp only [if_pos hbetting]
      exact hsub (hle.trans hends) hbetting
    · simp only [if_neg hbetting]
      by_cases htrading : now < d.endsAt
      · simp only [if_pos htrading]
        exact hsub hends htrading
      · simp only [if_neg htrading, Nat.cast_zero]

/-- Seconds are left in the phases that end by themselves. -/
theorem secondsToNext_pos {d : DuelAnswer} {now : ℕ} :
    0 < secondsToNext d now ↔ phaseAt d now = .betting ∨ phaseAt d now = .trading := by
  unfold secondsToNext phaseAt
  split_ifs <;> simp <;> omega

/-- A phase lasts for as long as the countdown says. -/
theorem phaseAt_countdown {d : DuelAnswer} {now : ℕ} (hpos : 0 < secondsToNext d now) (k : ℕ) :
    phaseAt d (now + k) = phaseAt d now ↔ k < secondsToNext d now := by
  unfold secondsToNext phaseAt at hpos ⊢
  by_cases hres : d.status = 2
  · simp [hres] at hpos
  · simp only [if_neg hres] at hpos ⊢
    by_cases hbetting : now < d.tradingStartsAt
    · simp only [if_pos hbetting]
      by_cases hk : k < d.tradingStartsAt - now
      · rw [if_pos (by omega)]
        exact iff_of_true rfl hk
      · rw [if_neg (by omega)]
        refine iff_of_false ?_ hk
        split <;> simp
    · simp only [if_neg hbetting] at hpos ⊢
      rw [if_neg (show ¬ now + k < d.tradingStartsAt by omega)]
      by_cases htrading : now < d.endsAt
      · simp only [if_pos htrading]
        by_cases hk : k < d.endsAt - now
        · rw [if_pos (by omega)]
          exact iff_of_true rfl hk
        · rw [if_neg (by omega)]
          exact iff_of_false (by simp) hk
      · simp [htrading] at hpos

/-- What the phase that is shown at the time of a call says of it. -/
structure PhaseGates (C : Config) (s : State) (id : ℕ) (m : Msg) (shown : DuelPhase) : Prop where
  bet : ∀ onA amount s', bet C s m id onA amount = .ok s' → shown = .betting
  injectChaos : ∀ target itemKind r, injectChaos C s m id target itemKind = .ok r →
    shown = .trading ∨ shown = .ended
  resolve : ∀ s', resolve C s m id = .ok s' → shown = .ended
  claim : ∀ r, claim C s m id = .ok r → shown = .resolved

/-- Trading ends after it starts. -/
theorem schedule_le (h₀ : Deployed C s₀) (h : Run C s₀ tr s) (id : ℕ) :
    (s.duels id).tradingStartsAt ≤ (s.duels id).endsAt := by
  refine h.history (P := fun _ s => (s.duels id).tradingStartsAt ≤ (s.duels id).endsAt) ?_ ?_
  · rw [h₀.eq_initial]
    exact le_refl 0
  · intro tr s e s' hr hle hst
    have hwf := Run.wellFormed h₀ hr
    generalize hd : s'.duels id = d
    cases hd ▸ (hst.effect hwf).duel hwf id with
    | created agentA agentB bettingSecs tradingSecs => exact Nat.le_add_right _ _
    | same | scored | bet | resolved => exact hle

theorem phase_gates (hle : (s.duels id).tradingStartsAt ≤ (s.duels id).endsAt) (m : Msg) :
    PhaseGates C s id m (phaseAt (duelOf S (s.duels id)) m.timestamp) := by
  constructor
  · intro onA amount s' h
    simp only [Colosseum.bet, bind_ok, liveDuel_ok, revertIf_ok, not_le] at h
    obtain ⟨d, ⟨rfl, hlive⟩, _, htime, -⟩ := h
    simp [phaseAt, duelOf, statusCode, hlive, htime]
  · intro target itemKind r h
    simp only [Colosseum.injectChaos, bind_ok, liveDuel_ok, revertIf_ok, not_lt] at h
    obtain ⟨d, ⟨rfl, hlive⟩, _, htime, -⟩ := h
    have hstart : ¬ m.timestamp < (s.duels id).tradingStartsAt := by omega
    by_cases hend : m.timestamp < (s.duels id).endsAt
    · left
      simp [phaseAt, duelOf, statusCode, hlive, hstart, hend]
    · right
      simp [phaseAt, duelOf, statusCode, hlive, hstart, hend]
  · intro s' h
    simp only [Colosseum.resolve, bind_ok, existingDuel_ok, revertIf_ok, not_lt] at h
    obtain ⟨d, ⟨rfl, hex⟩, _, hopen, _, htime, -⟩ := h
    have hstatus : statusCode (s.duels id).status ≠ 2 := by
      cases hs : (s.duels id).status with
      | none => exact absurd hs hex
      | live => decide
      | resolved => exact absurd hs hopen
    have hend : ¬ m.timestamp < (s.duels id).endsAt := by omega
    have hstart : ¬ m.timestamp < (s.duels id).tradingStartsAt := by omega
    simp [phaseAt, duelOf, hstatus, hstart, hend]
  · intro r h
    simp only [Colosseum.claim, bind_ok, existingDuel_ok, revertIf_ok, not_not] at h
    obtain ⟨d, ⟨rfl, -⟩, _, hres, -⟩ := h
    simp [phaseAt, duelOf, statusCode, hres]

/-! ## The claim -/

/-- What a position says of a claim of its account. -/
structure ClaimShown (C : Config) (s : State) (id : ℕ) (m : Msg) (p : ClaimPosition) : Prop where
  claimable : p.claimable = true ↔ ∃ s' payout, claim C s m id = .ok (s', payout)
  /-- The payout is no less than the stake that is shown, and just that when it is a refund. -/
  payout : ∀ s' payout, claim C s m id = .ok (s', payout) →
    p.myStake ≤ payout ∧ (p.refund = true → payout = p.myStake)
  claimed : p.claimed = true → claim C s m id = .error (.custom .alreadyClaimed)
  nothing : p.claimed = false → p.claimable = false →
    claim C s m id = .error (.custom .nothingToClaim)

/-- A resolved duel is never written again. -/
theorem duel_of_resolved (h₀ : Deployed C s₀) (h : Run C s₀ tr s) (h' : Run C s tr' s')
    (hres : (s.duels id).status = .resolved) : s'.duels id = s.duels id := by
  refine h'.history (P := fun _ s' => s'.duels id = s.duels id) rfl ?_
  intro tr' s₁ e s₂ hr heq hst
  have hwf := Run.wellFormed h₀ (h.append hr)
  rw [← heq] at hres ⊢
  exact ((hst.effect hwf).duel hwf id).of_resolved hwf hres

/-- What the page shows of a resolved duel, in the words of the contract. -/
theorem useClaimPosition_eq {α : Type} (betOf : ℕ → Bool → α → ℕ) (claimed : ℕ → α → Bool)
    (hid : id ≤ 2 ^ 53) (hres : (s.duels id).status = .resolved) (acct : α) :
    useClaimPosition N U.lower betOf claimed
        (some { duelOf S (s.duels id) with duelId := N.ofInt id }) (some acct) =
      some (let w := (s.duels id).winnerIsA
        let refund := decide ((s.duels id).winningPool = 0)
        let myStake := if refund then betOf id true acct + betOf id false acct else betOf id w acct
        { winnerIsA := w
          refund
          myStake
          claimed := claimed id acct
          claimable := !claimed id acct && decide (0 < myStake) }) := by
  have hwin : decide (U.lower (S.text (s.duels id).winner) = U.lower (S.text (s.duels id).agentA)) =
      (s.duels id).winnerIsA := by
    rw [S.lower_text, S.lower_text, Colosseum.Duel.winnerIsA]
    exact decide_eq_decide.mpr addressKey_injective.eq_iff
  have hpool : (if (s.duels id).winnerIsA = true then (s.duels id).poolA else (s.duels id).poolB) =
      (s.duels id).winningPool := rfl
  have hbig : (N.bigInt (N.ofInt id)).toNat = id := by
    rw [N.bigInt_exact id (by rw [abs_le]; omega), Int.toNat_natCast]
  have hstake : (if (s.duels id).winnerIsA = true then betOf id true acct
      else betOf id false acct) = betOf id (s.duels id).winnerIsA acct := by
    cases (s.duels id).winnerIsA <;> rfl
  simp only [useClaimPosition, Option.bind_some, duelOf, hres, statusCode, if_true, hbig, hwin,
    hpool, hstake]

/-- The stake that is shown is that of the book. -/
theorem myStake_eq {b : Parimutuel.Book Address} (h : s.Represents id b) (w : Bool) (a : Address) :
    (if decide (b.pool w = 0) = true then s.betOf id true a + s.betOf id false a
      else s.betOf id w a) = if b.pool w = 0 then b.both a else b.stake w a := by
  rw [Parimutuel.Book.both, h.stake]
  simp only [decide_eq_true_eq]

/-- Until the duel is resolved there is no position. -/
theorem useClaimPosition_open {α : Type} (betOf : ℕ → Bool → α → ℕ) (claimed : ℕ → α → Bool)
    (hopen : (s.duels id).status ≠ .resolved) (acct : α) :
    useClaimPosition N U.lower betOf claimed
        (some { duelOf S (s.duels id) with duelId := N.ofInt id }) (some acct) = none := by
  have hcode : statusCode (s.duels id).status ≠ 2 := by
    cases hs : (s.duels id).status with
    | none | live => decide
    | resolved => exact absurd hs hopen
  simp only [useClaimPosition, Option.bind_some, duelOf, if_neg hcode]

/-- The position that agrees with the book says what a claim does. -/
theorem claimShown_of_book {b : Parimutuel.Book Address} (hs : Solvent C s)
    (h : s.Represents id b) (hres : (s.duels id).status = .resolved) (hT : b.total < 2 ^ 256)
    (hfit : ∀ a, s.betOf id (s.duels id).winnerIsA a * b.total < 2 ^ 256) (m : Msg)
    {p : ClaimPosition} (hrefund : p.refund = decide (b.pool (s.duels id).winnerIsA = 0))
    (hstake : p.myStake = if b.pool (s.duels id).winnerIsA = 0 then b.both m.sender
      else b.stake (s.duels id).winnerIsA m.sender)
    (hclaimed : p.claimed = s.claimed id m.sender)
    (hclaimable : p.claimable = (!p.claimed && decide (0 < p.myStake))) :
    ClaimShown C s id m p := by
  have hent : b.Entitled (s.duels id).winnerIsA m.sender ↔ 0 < p.myStake := by
    rw [Parimutuel.Book.entitled_iff, hstake, Nat.pos_iff_ne_zero]
  have htwice (hc : p.claimed = true) : claim C s m id = .error (.custom .alreadyClaimed) :=
    claim_alreadyClaimed hres (hclaimed ▸ hc)
  have hnothing (hc : p.claimed = false) (h0 : ¬ 0 < p.myStake) :
      claim C s m id = .error (.custom .nothingToClaim) :=
    claim_nothingToClaim h hres (hclaimed ▸ hc) hT (mt hent.mp h0)
  have hpaid (hc : p.claimed = false) (hpos : 0 < p.myStake) :
      ∃ s', claim C s m id = .ok (s', b.payout (s.duels id).winnerIsA m.sender) := by
    refine claim_succeeds hs h hres (fun hm => ?_) (hent.mpr hpos) hT (hfit m.sender)
    rw [h.claimed, ← hclaimed, hc] at hm
    cases hm
  -- A claim that goes through is one of an entitled account that was not paid yet.
  have hok {r : State × ℕ} (hr : claim C s m id = .ok r) : p.claimed = false ∧ 0 < p.myStake := by
    cases hc : p.claimed with
    | true =>
      rw [htwice hc] at hr
      cases hr
    | false =>
      refine ⟨rfl, ?_⟩
      by_contra h0
      rw [hnothing hc h0] at hr
      cases hr
  constructor
  · rw [hclaimable, Bool.and_eq_true, Bool.not_eq_true', decide_eq_true_eq]
    constructor
    · rintro ⟨hc, hpos⟩
      obtain ⟨s', hp⟩ := hpaid hc hpos
      exact ⟨s', _, hp⟩
    · rintro ⟨s', payout, hr⟩
      exact hok hr
  · intro s' payout hr
    obtain ⟨hc, hpos⟩ := hok hr
    obtain ⟨s₁, hp⟩ := hpaid hc hpos
    rw [hr] at hp
    simp only [Except.ok.injEq, Prod.mk.injEq] at hp
    obtain ⟨-, rfl⟩ := hp
    have hn : m.sender ∉ b.claimed := by
      rw [h.claimed, ← hclaimed, hc]
      simp
    constructor
    · rw [hstake]
      exact Parimutuel.Book.stake_le_payout (hent.mpr hpos) hn
    · intro hz
      rw [hrefund, decide_eq_true_eq] at hz
      rw [hstake, if_pos hz, Parimutuel.Book.payout, Parimutuel.Book.payoutAfter_of_empty hz]
  · exact htwice
  · intro hc hno
    refine hnothing hc fun hpos => ?_
    rw [hclaimable, hc] at hno
    simp [hpos] at hno

/-- What the page says of the duels in the state `s`. -/
structure DuelShown [DecidableEq D] (C : Config) (s : State) : Prop where
  /-- The page shows the duel with the highest id. -/
  latest : ∃ shown, useActiveDuel N s.duelCount (getDuel S s) = some shown ∧
    ∀ id d, readDuel S N s id = some d → ∃ n top, id ≤ n ∧ readDuel S N s n = some top ∧
      shown = some top
  gates : ∀ id d, readDuel S N s id = some d → ∀ m : Msg, m.timestamp < 2 ^ 53 →
    PhaseGates C s id m (duelPhase N d (N.ofInt m.timestamp)).1
  /-- The phases that end by themselves last for as long as the countdown says. -/
  countdown : ∀ id d, readDuel S N s id = some d → d.endsAt ≤ 2 ^ 53 → ∀ now : ℕ, now < 2 ^ 53 →
    ∃ n : ℕ, (duelPhase N d (N.ofInt now)).2.2 = N.ofInt n ∧
      (0 < n ↔ (duelPhase N d (N.ofInt now)).1 = .betting ∨
        (duelPhase N d (N.ofInt now)).1 = .trading) ∧
      (0 < n → ∀ k : ℕ, now + k < 2 ^ 53 →
        ((duelPhase N d (N.ofInt (now + k : ℕ))).1 = (duelPhase N d (N.ofInt now)).1 ↔ k < n))
  /-- There is a position for a resolved duel only. -/
  position : ∀ id d, readDuel S N s id = some d → ∀ a : Address,
    (useClaimPosition N U.lower s.betOf s.claimed (some d) (some a)).isSome ↔
      (s.duels id).status = .resolved
  /-- The duel of a position may have been read before the stakes. -/
  claims : ∀ id d, readDuel S N s id = some d → (s.duels id).status = .resolved →
    ∀ tr' s', Run C s tr' s' →
      (∀ a, s'.betOf id (s.duels id).winnerIsA a *
        ((s.duels id).poolA + (s.duels id).poolB) < 2 ^ 256) →
      ∀ m : Msg, ∃ p,
        useClaimPosition N U.lower s'.betOf s'.claimed (some d) (some m.sender) = some p ∧
          ClaimShown C s' id m p

theorem useActiveDuel_latest [DecidableEq D] (hwf : WellFormed C s)
    (hcount : s.duelCount ≤ 2 ^ 53) :
    ∃ shown, useActiveDuel N s.duelCount (getDuel S s) = some shown ∧
      ∀ id d, readDuel S N s id = some d → ∃ n top, id ≤ n ∧ readDuel S N s n = some top ∧
        shown = some top := by
  have hexact : |(s.duelCount : ℤ)| ≤ 2 ^ 53 := by
    rw [abs_le]
    omega
  have hzero : N.ofInt s.duelCount = N.ofInt 0 ↔ s.duelCount = 0 := by
    rw [N.ofInt_inj hexact (by decide)]
    omega
  by_cases hnone : s.duelCount = 0
  · refine ⟨none, if_pos (hzero.mpr hnone), fun id d hd => ?_⟩
    have hid := (hwf.counted id).mp ((readDuel_eq_some S N).mp hd).1
    omega
  · have hex : (s.duels s.duelCount).status ≠ .none := (hwf.counted _).mpr ⟨by omega, le_refl _⟩
    refine ⟨some { duelOf S (s.duels s.duelCount) with duelId := N.ofInt s.duelCount }, ?_,
      fun id d hd => ?_⟩
    · have hread := (getDuel_eq_some S).mpr ⟨hex, rfl⟩
      simp only [useActiveDuel, if_neg (mt hzero.mp hnone), N.bigInt_exact _ hexact,
        Int.toNat_natCast, hread, Option.map_some]
    · exact ⟨s.duelCount, _, ((hwf.counted id).mp ((readDuel_eq_some S N).mp hd).1).2,
        (readDuel_eq_some S N).mpr ⟨hex, rfl⟩, rfl⟩

theorem duel_shown [DecidableEq D] (h₀ : Deployed C s₀) (h : Run C s₀ tr s)
    (hcount : s.duelCount ≤ 2 ^ 53) : DuelShown S N C s := by
  have hwf := Run.wellFormed h₀ h
  have hexact {id : ℕ} (hex : (s.duels id).status ≠ .none) : id ≤ 2 ^ 53 :=
    ((hwf.counted id).mp hex).2.trans hcount
  constructor
  · exact useActiveDuel_latest S N hwf hcount
  · intro id d hd m hnow
    obtain ⟨-, rfl⟩ := (readDuel_eq_some S N).mp hd
    rw [duelPhase_ofInt N _ hnow]
    exact phase_gates S (schedule_le h₀ h id) m
  · intro id d hd hends now hnow
    obtain ⟨-, rfl⟩ := (readDuel_eq_some S N).mp hd
    refine ⟨_, duelPhase_secondsToNext N (schedule_le h₀ h id) hends hnow, ?_, ?_⟩
    · rw [duelPhase_ofInt N _ hnow]
      exact secondsToNext_pos
    · intro hpos k hk
      rw [duelPhase_ofInt N _ hnow, duelPhase_ofInt N _ hk]
      exact phaseAt_countdown hpos k
  · intro id d hd a
    obtain ⟨hex, rfl⟩ := (readDuel_eq_some S N).mp hd
    by_cases hres : (s.duels id).status = .resolved
    · rw [useClaimPosition_eq S N s.betOf s.claimed (hexact hex) hres]
      exact iff_of_true rfl hres
    · rw [useClaimPosition_open S N s.betOf s.claimed hres]
      exact iff_of_false (by simp) hres
  · intro id d hd hres tr' s' h' hfit m
    obtain ⟨hex, rfl⟩ := (readDuel_eq_some S N).mp hd
    have hid := hexact hex
    have heq := duel_of_resolved h₀ h h' hres
    have hrun := h.append h'
    obtain ⟨b, -, hrep⟩ := Run.reach h₀ hrun id
    have hW : (s'.duels id).winningPool = b.pool (s'.duels id).winnerIsA := hrep.pool _
    rw [← heq] at hres hfit ⊢
    rw [hrep.total] at hfit
    have hT := total_lt hrep (Run.poolsFit h₀ hrun) _ hfit
    refine ⟨_, useClaimPosition_eq S N s'.betOf s'.claimed hid hres m.sender, ?_⟩
    refine claimShown_of_book (Run.solvent h₀ hrun) hrep hres hT hfit m ?_ ?_ rfl rfl
    · rw [← hW]
    · rw [hW]
      exact myStake_eq hrep _ _

end

namespace Duel.Demo

open Colosseum.Demo

/-- The bets of `payouts` and the resolve. -/
def resolving : List (Msg × Call) := payouts.take 15

/-- The position of a bettor of the winning side with a stake of 1. -/
def winner (claimed : Bool) : ClaimPosition where
  winnerIsA := true
  refund := false
  myStake := 1
  claimed
  claimable := !claimed

/-- What the page shows the account `0xE1` of a duel that it has read. -/
def shown (duel : Option (Duel ℤ)) (s : State) : Option ClaimPosition :=
  useClaimPosition .exact Unicode.ascii.lower s.betOf s.claimed duel (some 0xE1)

/-- The page reads the duel after `resolve`. The button of the winner `0xE1` is offered before its
claim, which goes through, and not after it. -/
theorem resolved_shown : ∃ tr s d tr' s', Run config start tr s ∧
    readDuel (.keccak .ascii) .exact s 1 = some d ∧ DuelShown (.keccak .ascii) .exact config s ∧
    shown (some d) s = some (winner false) ∧
    (∃ s₁ payout, claim config s (.of 0xE1 31) 1 = .ok (s₁, payout) ∧ 1 ≤ payout) ∧
    Run config s tr' s' ∧ shown (some d) s' = some (winner true) ∧
    claim config s' (.of 0xE1 32) 1 = .error (.custom .alreadyClaimed) := by
  have h : ((play config start resolving).bind fun r =>
      (play config r.2 [(.of 0xE1 31, .claim 1)]).map fun r' =>
        ((r.2.duelCount, (r.2.duels 1).status, (r.2.duels 1).winnerIsA, (r.2.duels 1).poolA,
          (r.2.duels 1).poolB), shown (readDuel (.keccak .ascii) .exact r.2 1) r.2,
          shown (readDuel (.keccak .ascii) .exact r.2 1) r'.2)) =
      some ((1, .resolved, true, 3, 4), some (winner false), some (winner true)) := by
    decide +kernel
  obtain ⟨r, hr, hv⟩ := Option.bind_eq_some_iff.mp h
  obtain ⟨r', hr', hv⟩ := Option.map_eq_some_iff.mp hv
  simp only [Prod.mk.injEq] at hv
  obtain ⟨⟨hcount, hres, hw, hA, hB⟩, hbefore, hafter⟩ := hv
  have hrun := Run.of_play hr
  have hrun' := Run.of_play hr'
  have hshown := duel_shown (.keccak .ascii) .exact deployed hrun (by omega)
  have hex : (r.2.duels 1).status ≠ .none := by
    rw [hres]
    decide
  have hread : readDuel (.keccak .ascii) Doubles.exact r.2 1 = some _ :=
    (readDuel_eq_some (.keccak .ascii) .exact).mpr ⟨hex, rfl⟩
  rw [hread] at hbefore hafter
  -- The stakes of the winning side are at most its pool of 3.
  have hfit {tr' s'} (h : Run config r.2 tr' s') (a : Address) :
      s'.betOf 1 (r.2.duels 1).winnerIsA a *
        ((r.2.duels 1).poolA + (r.2.duels 1).poolB) < 2 ^ 256 := by
    have hle := Run.betOf_le deployed (hrun.append h) 1 true a
    rw [duel_of_resolved deployed hrun h hres] at hle
    have hpool : (r.2.duels 1).pool true = 3 := hA
    rw [hw, hA, hB]
    omega
  obtain ⟨p, hp, hclaim⟩ :=
    hshown.claims 1 _ hread hres [] r.2 .nil (hfit .nil) (.of 0xE1 31)
  obtain ⟨p', hp', hclaim'⟩ :=
    hshown.claims 1 _ hread hres r'.1 r'.2 hrun' (hfit hrun') (.of 0xE1 32)
  obtain rfl := Option.some.inj (hp.symm.trans hbefore)
  obtain rfl := Option.some.inj (hp'.symm.trans hafter)
  obtain ⟨s₁, payout, hpaid⟩ := hclaim.claimable.mp rfl
  exact ⟨r.1, r.2, _, r'.1, r'.2, hrun, hread, hshown, hbefore,
    ⟨s₁, payout, hpaid, (hclaim.payout _ _ hpaid).1⟩, hrun', hafter, hclaim'.claimed rfl⟩

end Duel.Demo

end Web
end Arcane
