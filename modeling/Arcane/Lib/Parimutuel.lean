import Arcane.Lib.Mapping
import Arcane.Lib.ProRata
import Arcane.Lib.Run

/-!
# A parimutuel book

Bettors stake on one of two sides, the book closes on the winning side, and the bettors then claim
in any order: the winners share the whole pot pro rata, or, when nobody staked on the winning
side, everybody gets its own stakes back. A `Book` carries its invariant, so a book with claims
before it closed, or with a claim of a loser, cannot be built.

* `Step`: bet, close, claim. `staked`, `payouts`: what the events of a run say was staked and paid.
* `Step.outstanding`: what is outstanding grows by what is staked and shrinks by what is paid.
* `Reach.stake`: the stakes are the bets.
* `Reach.settled`: every payment is the one of the pro-rata rule for the claims before it.
-/

namespace Parimutuel

variable {α : Type} [Fintype α]

/-- A book of bets. No winner: it is open. -/
structure Book (α : Type) [Fintype α] where
  stake : Bool → α → ℕ
  winner : Option Bool
  claimed : Finset α
  unclaimed : winner = none → claimed = ∅
  entitled : ∀ w, winner = some w → 0 < ∑ a, stake w a → ∀ a ∈ claimed, 0 < stake w a

namespace Book

/-- The book before the first bet. -/
def empty : Book α where
  stake _ _ := 0
  winner := none
  claimed := ∅
  unclaimed _ := rfl
  entitled _ h := by cases h

def pool (b : Book α) (side : Bool) : ℕ := ∑ a, b.stake side a

def total (b : Book α) : ℕ := b.pool true + b.pool false

/-- The stakes of `a` on both sides. -/
def both (b : Book α) (a : α) : ℕ := b.stake true a + b.stake false a

/-- `a` has something to claim when `w` wins. -/
def Entitled (b : Book α) (w : Bool) (a : α) : Prop :=
  (b.pool w = 0 → 0 < b.both a) ∧ (b.pool w ≠ 0 → 0 < b.stake w a)

/-- What `a` is paid when it claims after the claimants in `C`. -/
def payoutAfter (b : Book α) (w : Bool) (C : Finset α) (a : α) : ℕ :=
  if b.pool w = 0 then b.both a else ProRata.next (b.stake w) b.total (b.pool w) C a

/-- What `a` is paid when it claims now. -/
def payout (b : Book α) (w : Bool) (a : α) : ℕ := b.payoutAfter w b.claimed a

/-- What the claimants in `C` are paid together when `w` wins. -/
def paidTo (b : Book α) (w : Bool) (C : Finset α) : ℕ :=
  if b.pool w = 0 then ∑ a ∈ C, b.both a else ProRata.paid (b.stake w) b.total (b.pool w) C

/-- What has been paid when `w` wins. -/
def paid (b : Book α) (w : Bool) : ℕ := b.paidTo w b.claimed

/-- What the book still owes. -/
def outstanding (b : Book α) : ℕ :=
  match b.winner with
  | none => b.total
  | some w => b.total - b.paid w

/-- `w` wins. -/
def close (b : Book α) (w : Bool) : Book α where
  stake := b.stake
  winner := some w
  claimed := ∅
  unclaimed h := by cases h
  entitled _ _ _ _ h := by simp at h

section Bounds

variable {b : Book α} {w : Bool} {a : α}

theorem entitled_iff :
    b.Entitled w a ↔ (if b.pool w = 0 then b.both a else b.stake w a) ≠ 0 := by
  unfold Entitled
  split
  · rename_i hz
    exact ⟨fun h => (h.1 hz).ne', fun h => ⟨fun _ => Nat.pos_of_ne_zero h, fun h' => absurd hz h'⟩⟩
  · rename_i hz
    exact ⟨fun h => (h.2 hz).ne', fun h => ⟨fun h' => absurd h' hz, fun _ => Nat.pos_of_ne_zero h⟩⟩

theorem pool_le_total (b : Book α) (side : Bool) : b.pool side ≤ b.total := by
  cases side <;> simp [total]

theorem sum_both (b : Book α) : ∑ a, b.both a = b.total := by
  simp [both, total, pool, Finset.sum_add_distrib]

theorem sum_le (b : Book α) (side : Bool) (C : Finset α) :
    ∑ a ∈ C, b.stake side a ≤ b.pool side :=
  Finset.sum_le_sum_of_subset (Finset.subset_univ _)

/-- A book never pays more than was staked. -/
theorem paid_le (b : Book α) (w : Bool) : b.paid w ≤ b.total := by
  unfold paid paidTo
  split
  · rw [← b.sum_both]
    exact Finset.sum_le_sum_of_subset (Finset.subset_univ _)
  · exact ProRata.paid_le (by omega) (b.sum_le w _)

theorem outstanding_open (h : b.winner = none) : b.outstanding = b.total := by
  simp [outstanding, h]

theorem paid_add_outstanding (h : b.winner = some w) : b.paid w + b.outstanding = b.total := by
  have := b.paid_le w
  simp only [outstanding, h]
  omega

theorem total_close : (b.close w).total = b.total := rfl

/-- The payouts with a non-empty winning pool, in terms of the counters of the winning side. -/
theorem payoutAfter_of_pool (hz : b.pool w ≠ 0) (C : Finset α) (a : α) :
    b.payoutAfter w C a = if ∑ x ∈ C, b.stake w x + b.stake w a = b.pool w then
      b.total - b.paidTo w C else b.stake w a * b.total / b.pool w := by
  rw [payoutAfter, paidTo, if_neg hz, if_neg hz]
  rfl

/-- The refund with an empty one. -/
theorem payoutAfter_of_empty (hz : b.pool w = 0) (C : Finset α) (a : α) :
    b.payoutAfter w C a = b.both a := if_pos hz

theorem paidTo_empty (b : Book α) (w : Bool) : b.paidTo w ∅ = 0 := by
  unfold paidTo
  split
  · simp
  · exact ProRata.paid_empty (by omega)

theorem paid_close : (b.close w).paid w = 0 := (b.close w).paidTo_empty w

theorem outstanding_close (h : b.winner = none) : (b.close w).outstanding = b.outstanding := by
  have := paid_add_outstanding (b := b.close w) (w := w) rfl
  rw [paid_close, total_close] at this
  rw [outstanding_open h]
  omega

end Bounds

variable [DecidableEq α]

/-- `a` stakes `n` more on `side`. -/
def bet (b : Book α) (_h : b.winner = none) (side : Bool) (a : α) (n : ℕ) : Book α where
  stake := Function.update b.stake side (Function.update (b.stake side) a (b.stake side a + n))
  winner := none
  claimed := ∅
  unclaimed _ := rfl
  entitled _ h := by cases h

/-- `a` has claimed. -/
def claim (b : Book α) (w : Bool) (a : α) (hw : b.winner = some w) (ha : b.Entitled w a) :
    Book α where
  stake := b.stake
  winner := some w
  claimed := insert a b.claimed
  unclaimed h := by cases h
  entitled w' hw' hpos x hx := by
    cases hw'
    rcases Finset.mem_insert.mp hx with rfl | hx
    · exact ha.2 (Nat.pos_iff_ne_zero.mp hpos)
    · exact b.entitled w hw hpos x hx

section Operations

variable {b : Book α} {w : Bool} {a : α}

theorem payout_pos (ha : b.Entitled w a) (hn : a ∉ b.claimed) : 0 < b.payout w a := by
  unfold payout payoutAfter
  split
  · rename_i hz
    exact ha.1 hz
  · rename_i hz
    have hpos : 0 < b.pool w := by omega
    exact (ProRata.share_pos (ha.2 hz) hpos (b.pool_le_total w)).trans_le
      (ProRata.share_le_next hpos hn (ha.2 hz))

/-- Nobody gets less than was staked: everything with an empty winning pool, the winning stake
otherwise. -/
theorem stake_le_payout (ha : b.Entitled w a) (hn : a ∉ b.claimed) :
    (if b.pool w = 0 then b.both a else b.stake w a) ≤ b.payout w a := by
  unfold payout payoutAfter
  split
  · exact le_refl _
  · rename_i hz
    have hpos : 0 < b.pool w := by omega
    have hshare : b.stake w a ≤ b.stake w a * b.total / b.pool w :=
      (Nat.le_div_iff_mul_le hpos).mpr (Nat.mul_le_mul_left _ (b.pool_le_total w))
    exact hshare.trans (ProRata.share_le_next hpos hn (ha.2 hz))

theorem sum_claimed {hw : b.winner = some w} {ha : b.Entitled w a} (hn : a ∉ b.claimed)
    (side : Bool) : ∑ x ∈ (b.claim w a hw ha).claimed, (b.claim w a hw ha).stake side x =
      ∑ x ∈ b.claimed, b.stake side x + b.stake side a := by
  show ∑ x ∈ insert a b.claimed, b.stake side x = _
  rw [Finset.sum_insert hn, Nat.add_comm]

/-- One more claimant is paid exactly what the rule says. -/
theorem paidTo_insert {C : Finset α} (ha : b.Entitled w a) (hn : a ∉ C) :
    b.paidTo w (insert a C) = b.paidTo w C + b.payoutAfter w C a := by
  unfold paidTo payoutAfter
  split
  · rw [Finset.sum_insert hn, Nat.add_comm]
  · rename_i hz
    have hle : ∑ x ∈ C, b.stake w x + b.stake w a ≤ b.pool w := by
      rw [Nat.add_comm, ← Finset.sum_insert hn]
      exact b.sum_le w _
    exact ProRata.paid_insert (by omega) hn (ha.2 hz) hle

/-- A claim pays exactly its payout. -/
theorem paid_claim (hw : b.winner = some w) (ha : b.Entitled w a) (hn : a ∉ b.claimed) :
    (b.claim w a hw ha).paid w = b.paid w + b.payout w a :=
  paidTo_insert ha hn

/-- The last claimant is the one after whom no winner is left. -/
theorem sum_add_eq_pool_iff {C : Finset α} (hn : a ∉ C) :
    ∑ x ∈ C, b.stake w x + b.stake w a = b.pool w ↔ ∀ x, 0 < b.stake w x → x = a ∨ x ∈ C := by
  rw [Nat.add_comm, ← Finset.sum_insert hn, pool, ProRata.sum_eq_iff]
  simp only [Finset.mem_insert]

theorem pool_bet (h : b.winner = none) (side x : Bool) (a : α) (n : ℕ) :
    (b.bet h side a n).pool x = b.pool x + if x = side then n else 0 := by
  unfold pool bet
  by_cases hx : x = side
  · subst hx
    simp only [Function.update_self, if_true]
    have := Mapping.sum_update (Finset.mem_univ a) (b.stake x) (b.stake x a + n)
    omega
  · simp [hx]

theorem total_bet (h : b.winner = none) (side : Bool) (a : α) (n : ℕ) :
    (b.bet h side a n).total = b.total + n := by
  simp only [total, pool_bet]
  cases side <;> simp <;> omega

theorem outstanding_bet (h : b.winner = none) (side : Bool) (a : α) (n : ℕ) :
    (b.bet h side a n).outstanding = b.outstanding + n := by
  rw [outstanding_open h, outstanding_open rfl, total_bet]

theorem outstanding_claim (hw : b.winner = some w) (ha : b.Entitled w a) (hn : a ∉ b.claimed) :
    (b.claim w a hw ha).outstanding + b.payout w a = b.outstanding := by
  have h₁ := paid_add_outstanding hw
  have h₂ := paid_add_outstanding (b := b.claim w a hw ha) (w := w) rfl
  rw [paid_claim hw ha hn] at h₂
  have : (b.claim w a hw ha).total = b.total := rfl
  omega

/-- With an empty winning pool, a book owes the stakes that were not claimed back. -/
theorem outstanding_refund (hw : b.winner = some w) (hz : b.pool w = 0) :
    b.outstanding = ∑ a with a ∉ b.claimed, b.both a := by
  have h := paid_add_outstanding hw
  have hsplit := Finset.sum_filter_add_sum_filter_not Finset.univ (· ∈ b.claimed) b.both
  rw [sum_both] at hsplit
  rw [paid, paidTo, if_pos hz] at h
  simp only [Finset.filter_univ_mem] at hsplit
  omega

end Operations

end Book

/-! ## Runs -/

inductive Event (α : Type) where
  | bet (side : Bool) (a : α) (n : ℕ)
  | close (w : Bool)
  | claim (a : α) (p : ℕ)

/-- What the event brings into the pot. -/
def Event.inflow : Event α → ℕ
  | .bet _ _ n => n
  | _ => 0

/-- What the event takes out of the pot. -/
def Event.outflow : Event α → ℕ
  | .claim _ p => p
  | _ => 0

/-- What the claimants were paid, in order. -/
def payouts (evs : List (Event α)) : List (α × ℕ) :=
  evs.filterMap fun
    | .claim a p => some (a, p)
    | _ => none

variable [DecidableEq α]

/-- What `a` stakes on `side` by the event. -/
def Event.stakeOf (side : Bool) (a : α) : Event α → ℕ
  | .bet side' a' n => if side' = side ∧ a' = a then n else 0
  | _ => 0

/-- The bets of `a` on `side`, added up. -/
def staked (evs : List (Event α)) (side : Bool) (a : α) : ℕ := (evs.map (·.stakeOf side a)).sum

inductive Step : Book α → Event α → Book α → Prop
  | bet {b : Book α} (h : b.winner = none) (side : Bool) (a : α) (n : ℕ) :
      Step b (.bet side a n) (b.bet h side a n)
  | close {b : Book α} (h : b.winner = none) (w : Bool) : Step b (.close w) (b.close w)
  | claim {b : Book α} {w : Bool} {a : α} (hw : b.winner = some w) (ha : b.Entitled w a)
      (hn : a ∉ b.claimed) : Step b (.claim a (b.payout w a)) (b.claim w a hw ha)

/-- The debt of the book changes by the bets and the claims. -/
theorem Step.outstanding {b b' : Book α} {ev : Event α} (h : Step b ev b') :
    b'.outstanding + ev.outflow = b.outstanding + ev.inflow := by
  cases h with
  | bet hw side a n => exact Book.outstanding_bet hw side a n
  | close hw w => exact Book.outstanding_close hw
  | claim hw ha hn => exact Book.outstanding_claim hw ha hn

/-- `evs` lead from the empty book to `b`. -/
def Reach (evs : List (Event α)) (b : Book α) : Prop :=
  ∃ tr, Trace.Run Step .empty tr b ∧ tr.map (·.ev) = evs

namespace Reach

variable {evs : List (Event α)} {b b' : Book α} {ev : Event α}

theorem nil : Reach (α := α) [] .empty := ⟨[], .nil, rfl⟩

theorem snoc (h : Reach evs b) (hst : Step b ev b') : Reach (evs ++ [ev]) b' := by
  obtain ⟨tr, hr, rfl⟩ := h
  exact ⟨_, hr.snoc ev hst, by simp⟩

/-- Induction over the events. -/
theorem induct {P : List (Event α) → Book α → Prop} (h : Reach evs b) (h₀ : P [] .empty)
    (hs : ∀ evs b ev b', P evs b → Step b ev b' → P (evs ++ [ev]) b') : P evs b := by
  obtain ⟨tr, hr, rfl⟩ := h
  refine hr.history (P := fun tr b => P (tr.map (·.ev)) b) h₀ ?_
  intro tr b ev b' _ hP hst
  simpa using hs _ b ev b' hP hst

/-- The stakes are the bets. -/
theorem stake (h : Reach evs b) (side : Bool) (a : α) : b.stake side a = staked evs side a := by
  refine h.induct (P := fun evs b => b.stake side a = staked evs side a) rfl
    ?_
  intro evs b ev b' ih hst
  rw [staked, List.map_append, List.sum_append, ← staked, ← ih]
  cases hst with
  | bet hw side' a' n =>
    by_cases hs : side' = side
    · subst hs
      by_cases ha : a' = a
      · subst ha
        simp [Event.stakeOf, Book.bet]
      · simp [Event.stakeOf, Book.bet, ha, Function.update_of_ne (Ne.symm ha)]
    · simp [Event.stakeOf, Book.bet, hs, Function.update_of_ne (Ne.symm hs)]
  | close hw w => simp [Event.stakeOf, Book.close]
  | claim hw ha hn => simp [Event.stakeOf, Book.claim]

/-- The claims in the history of a book. -/
structure Settled (b : Book α) (L : List (α × ℕ)) : Prop where
  unclaimed : b.winner = none → L = []
  claimed : ∀ a, a ∈ b.claimed ↔ a ∈ L.map Prod.fst
  nodup : (L.map Prod.fst).Nodup
  paid : ∀ w, b.winner = some w → b.paid w = (L.map Prod.snd).sum
  entitled : ∀ w, b.winner = some w → ∀ a ∈ b.claimed, b.Entitled w a
  ordered : ∀ w, b.winner = some w → ∀ before a p after, L = before ++ (a, p) :: after →
    p = b.payoutAfter w (before.map Prod.fst).toFinset a

omit [Fintype α] [DecidableEq α] in
/-- A list with one more element, cut at one of its elements. -/
theorem snoc_eq_split {β : Type} {L before after : List β} {x y : β}
    (h : L ++ [x] = before ++ y :: after) :
    (L = before ∧ x = y ∧ after = []) ∨
      ∃ after', after = after' ++ [x] ∧ L = before ++ y :: after' := by
  induction after using List.reverseRecOn with
  | nil =>
    obtain ⟨rfl, hx⟩ := List.append_inj' h rfl
    exact .inl ⟨rfl, by simpa using hx, rfl⟩
  | append_singleton after' z _ =>
    have h' : L ++ [x] = (before ++ y :: after') ++ [z] := by simpa using h
    obtain ⟨rfl, hx⟩ := List.append_inj' h' rfl
    obtain rfl : x = z := by simpa using hx
    exact .inr ⟨after', rfl, rfl⟩

/-- A book that nobody claimed from. -/
theorem Settled.of_empty (hc : b.claimed = ∅) (hp : ∀ w, b.winner = some w → b.paid w = 0) :
    Settled b [] where
  unclaimed _ := rfl
  claimed a := by simp [hc]
  nodup := List.nodup_nil
  paid w hw := hp w hw
  entitled w _ a ha := by simp [hc] at ha
  ordered w _ before a p after h := by simp at h

theorem Settled.claim {L : List (α × ℕ)} {w : Bool} {a : α} (h : Settled b L)
    (hw : b.winner = some w) (ha : b.Entitled w a) (hn : a ∉ b.claimed) :
    Settled (b.claim w a hw ha) (L ++ [(a, b.payout w a)]) where
  unclaimed h := by cases h
  claimed x := by
    have := h.claimed x
    simp only [Book.claim, Finset.mem_insert, this, List.map_append, List.mem_append,
      List.map_cons, List.map_nil, List.mem_singleton, or_comm]
  nodup := by
    rw [List.map_append, List.nodup_append]
    refine ⟨h.nodup, by simp, ?_⟩
    rintro x hx _ hy rfl
    obtain rfl : x = a := by simpa using hy
    exact hn ((h.claimed _).mpr hx)
  paid w' hw' := by
    cases hw'
    rw [Book.paid_claim hw ha hn, h.paid w hw]
    simp
  entitled w' hw' x hx := by
    cases hw'
    rcases Finset.mem_insert.mp hx with rfl | hx
    · exact ha
    · exact h.entitled w hw x hx
  ordered w' hw' before x p after hsplit := by
    cases hw'
    rcases snoc_eq_split hsplit with ⟨rfl, hx, -⟩ | ⟨after', -, hL⟩
    · -- the new claim comes after all claimants so far
      cases hx
      have hC : (L.map Prod.fst).toFinset = b.claimed := by
        ext y
        rw [List.mem_toFinset, h.claimed]
      rw [hC]
      rfl
    · exact h.ordered w hw before x p after' hL

namespace Settled

variable {L before after : List (α × ℕ)} {w : Bool} {a : α} {p : ℕ}

theorem mem_claimed (h : Settled b L) (hL : L = before ++ (a, p) :: after) : a ∈ b.claimed :=
  (h.claimed a).mpr (by simp [hL])

/-- A claimant was not paid before. -/
theorem notMem_before (h : Settled b L) (hL : L = before ++ (a, p) :: after) :
    a ∉ before.map Prod.fst := by
  have hnd := h.nodup
  rw [hL, List.map_append, List.nodup_append] at hnd
  exact fun hm => hnd.2.2 a hm a (by simp) rfl

/-- The first claims add up to what their claimants are paid together. -/
theorem sum_before (h : Settled b L) (hw : b.winner = some w) :
    ∀ {before after : List (α × ℕ)}, L = before ++ after →
      (before.map Prod.snd).sum = b.paidTo w (before.map Prod.fst).toFinset := by
  intro before
  induction before using List.reverseRecOn with
  | nil =>
    intro _ _
    simp [b.paidTo_empty]
  | append_singleton before x ih =>
    intro after hL
    obtain ⟨a, p⟩ := x
    have hL' : L = before ++ (a, p) :: after := by simpa using hL
    have hn := h.notMem_before hL'
    have hC : ((before ++ [(a, p)]).map Prod.fst).toFinset =
        insert a (before.map Prod.fst).toFinset := by
      rw [List.map_append, List.toFinset_append, Finset.union_comm]
      simp
    rw [hC, Book.paidTo_insert (h.entitled w hw a (h.mem_claimed hL')) (by simpa using hn),
      ← h.ordered w hw before a p after hL', List.map_append, List.sum_append, ih hL']
    simp

/-- Before the last winner, a winner gets its share rounded down. -/
theorem share (h : Settled b L) (hw : b.winner = some w) (hz : b.pool w ≠ 0)
    (hL : L = before ++ (a, p) :: after)
    (hx : ∃ x, 0 < b.stake w x ∧ x ≠ a ∧ x ∉ before.map Prod.fst) :
    p = b.stake w a * b.total / b.pool w := by
  obtain ⟨x, hpos, hxa, hxb⟩ := hx
  rw [h.ordered w hw before a p after hL, Book.payoutAfter_of_pool hz, if_neg]
  rw [Book.sum_add_eq_pool_iff (by simpa using h.notMem_before hL)]
  intro hall
  rcases hall x hpos with rfl | hm
  · exact hxa rfl
  · exact hxb (List.mem_toFinset.mp hm)

/-- The last winner gets what the others left. -/
theorem residual (h : Settled b L) (hw : b.winner = some w) (hz : b.pool w ≠ 0)
    (hL : L = before ++ (a, p) :: after)
    (hx : ∀ x, 0 < b.stake w x → x = a ∨ x ∈ before.map Prod.fst) :
    p + (before.map Prod.snd).sum = b.total := by
  have hn : a ∉ (before.map Prod.fst).toFinset := by simpa using h.notMem_before hL
  have hC := (Book.sum_add_eq_pool_iff (b := b) (w := w) hn).mpr fun x hpos => by
    simpa using hx x hpos
  rw [h.ordered w hw before a p after hL, Book.payoutAfter_of_pool hz, if_pos hC,
    h.sum_before hw hL]
  have hle : b.paidTo w (before.map Prod.fst).toFinset ≤ b.total := by
    rw [Book.paidTo, if_neg hz]
    exact ProRata.paid_le (by omega) (b.sum_le w _)
  omega

/-- A winner gets at least its share, and less than one unit more for each winner. -/
theorem dust (h : Settled b L) (hw : b.winner = some w) (hz : b.pool w ≠ 0)
    (hL : L = before ++ (a, p) :: after) :
    b.stake w a * b.total / b.pool w ≤ p ∧
      p < b.stake w a * b.total / b.pool w + (Finset.univ.filter (0 < b.stake w ·)).card := by
  have hn : a ∉ (before.map Prod.fst).toFinset := by simpa using h.notMem_before hL
  have hent := fun x hx => (h.entitled w hw x hx).2 hz
  have ha := hent a (h.mem_claimed hL)
  have hsub : insert a (before.map Prod.fst).toFinset ⊆ Finset.univ.filter (0 < b.stake w ·) := by
    intro x hx
    refine Finset.mem_filter.mpr ⟨Finset.mem_univ x, hent x ((h.claimed x).mpr ?_)⟩
    rw [hL, List.map_append]
    rcases Finset.mem_insert.mp hx with rfl | hx
    · simp
    · exact List.mem_append_left _ (List.mem_toFinset.mp hx)
  have hcard := Finset.card_le_card hsub
  have hp := h.ordered w hw before a p after hL
  rw [Book.payoutAfter, if_neg hz] at hp
  subst hp
  have h₁ := ProRata.share_le_next (s := b.stake w) (T := b.total) (W := b.pool w)
    (by omega) hn ha
  have h₂ := ProRata.next_lt (s := b.stake w) (T := b.total) (W := b.pool w) (by omega) hn ha
  exact ⟨h₁, h₂.trans_le (Nat.add_le_add_left hcard _)⟩

/-- Once all winners have claimed, the whole pot is paid. -/
theorem exhausted (h : Settled b L) (hw : b.winner = some w) (hz : b.pool w ≠ 0)
    (hall : ∀ x, 0 < b.stake w x → x ∈ L.map Prod.fst) : (L.map Prod.snd).sum = b.total := by
  rw [← h.paid w hw, Book.paid, Book.paidTo, if_neg hz, ProRata.paid_of_eq]
  exact ProRata.sum_eq_iff.mpr fun x hx => (h.claimed x).mpr (hall x hx)

end Settled

theorem settled (h : Reach evs b) : Settled b (payouts evs) := by
  refine h.induct (P := fun evs b => Settled b (payouts evs)) ?_ fun evs b ev b' ih hst => ?_
  · exact .of_empty rfl fun _ h => by cases h
  · rw [payouts, List.filterMap_append, ← payouts]
    cases hst with
    | bet hw side a n =>
      rw [ih.unclaimed hw]
      exact .of_empty rfl fun _ h => by cases h
    | close hw w =>
      rw [ih.unclaimed hw]
      refine .of_empty rfl ?_
      intro _ h
      cases h
      exact Book.paid_close
    | claim hw ha hn => exact ih.claim hw ha hn

end Reach

end Parimutuel
