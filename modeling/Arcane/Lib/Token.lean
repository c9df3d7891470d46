import Arcane.Lib.Evm
import Arcane.Lib.Mapping

/-!
# A standard ERC-20 token

The token a contract holds money in: exact transfers, no callbacks, no fees. The invariant that
the balances add up to the supply, which fits a `uint256`, is part of the state, so no sum of
balances can overflow (`balanceOf_lt`).

* `transfer`, `transferFrom`, `approve`: the interface, with the allowance rule of the standard
  (an allowance of `U256.max` is not spent).
* `Moved t t' a b n`: what a successful transfer does, and all that a caller needs to know of it.
* `Op`: the calls that accounts outside a contract make on the token themselves, with minting
  and burning. `Op.exec_held`: they leave a contract's balance and allowances alone, unless they
  send to it.
-/

namespace Evm

/-- The state of the token. -/
structure Token where
  balanceOf : Address → ℕ
  allowance : Address → Address → ℕ
  totalSupply : ℕ
  supply_eq : ∑ a, balanceOf a = totalSupply
  supply_lt : totalSupply < 2 ^ 256

namespace Token

/-- A token before the first mint. -/
def empty : Token where
  balanceOf _ := 0
  allowance _ _ := 0
  totalSupply := 0
  supply_eq := by simp
  supply_lt := by decide

inductive Error where
  | invalidSender
  | invalidReceiver
  | invalidApprover
  | invalidSpender
  | insufficientBalance
  | insufficientAllowance
  deriving DecidableEq

/-- The balances after `n` went from `a` to `b`. -/
def moved (f : Address → ℕ) (a b : Address) (n : ℕ) : Address → ℕ :=
  let g := Function.update f a (f a - n)
  Function.update g b (g b + n)

section Moved

variable {f : Address → ℕ} {a b x : Address} {n : ℕ}

theorem moved_src (hab : a ≠ b) : moved f a b n a = f a - n := by
  simp [moved, Function.update_of_ne hab]

theorem moved_dst (hab : a ≠ b) : moved f a b n b = f b + n := by
  simp [moved, Function.update_of_ne hab.symm]

theorem moved_ne (ha : x ≠ a) (hb : x ≠ b) : moved f a b n x = f x := by
  simp [moved, Function.update_of_ne ha, Function.update_of_ne hb]

theorem moved_zero : moved f a b 0 = f := by simp [moved]

/-- Two movements between the same accounts. -/
theorem moved_moved {k : ℕ} (hab : a ≠ b) :
    moved (moved f a b n) a b k = moved f a b (n + k) := by
  funext x
  by_cases ha : x = a
  · subst ha
    rw [moved_src hab, moved_src hab, moved_src hab, Nat.sub_sub]
  · by_cases hb : x = b
    · subst hb
      rw [moved_dst hab, moved_dst hab, moved_dst hab, Nat.add_assoc]
    · rw [moved_ne ha hb, moved_ne ha hb, moved_ne ha hb]

theorem sum_moved (h : n ≤ f a) : ∑ x, moved f a b n x = ∑ x, f x := by
  by_cases hab : a = b
  · subst hab
    have : moved f a a n = f := by
      funext x
      by_cases hx : x = a
      · subst hx; simp [moved]; omega
      · exact moved_ne hx hx
    rw [this]
  · have := Mapping.sum_change₂ (s := Finset.univ) (f := f) (g := moved f a b n)
      (Finset.mem_univ a) (Finset.mem_univ b) hab fun x _ ha hb => moved_ne ha hb
    rw [moved_src hab, moved_dst hab] at this
    omega

end Moved

/-- `n` moved from `a` to `b`. -/
def move (t : Token) (a b : Address) (n : ℕ) (h : n ≤ t.balanceOf a) : Token :=
  { t with
    balanceOf := moved t.balanceOf a b n
    supply_eq := by rw [sum_moved h, t.supply_eq] }

/-- `transfer(b, n)` called by `a`. -/
def transfer (t : Token) (a b : Address) (n : ℕ) : Tx Error Token := do
  revertIf (a = 0) .invalidSender
  revertIf (b = 0) .invalidReceiver
  if h : n ≤ t.balanceOf a then return t.move a b n h
  else throw (.custom .insufficientBalance)

/-- `spender` may move `n` of the tokens of `a`. -/
def setAllowance (t : Token) (a spender : Address) (n : ℕ) : Token :=
  let allowed := Function.update (t.allowance a) spender n
  { t with allowance := Function.update t.allowance a allowed }

/-- `spender` uses up `n` of its allowance over `a`. -/
def spend (t : Token) (spender a : Address) (n : ℕ) : Tx Error Token :=
  if t.allowance a spender = U256.max then .ok t
  else do
    revertIf (t.allowance a spender < n) .insufficientAllowance
    return t.setAllowance a spender (t.allowance a spender - n)

/-- `transferFrom(a, b, n)` called by `spender`. -/
def transferFrom (t : Token) (spender a b : Address) (n : ℕ) : Tx Error Token := do
  let t ← t.spend spender a n
  t.transfer a b n

/-- `approve(spender, n)` called by `a`. -/
def approve (t : Token) (a spender : Address) (n : ℕ) : Tx Error Token := do
  revertIf (a = 0) .invalidApprover
  revertIf (spender = 0) .invalidSpender
  return t.setAllowance a spender n

/-- New supply `n` for `b`. -/
def mint (t : Token) (b : Address) (n : ℕ) : Tx Error Token := do
  revertIf (b = 0) .invalidReceiver
  if h : t.totalSupply + n < 2 ^ 256 then
    return { t with
      balanceOf := Function.update t.balanceOf b (t.balanceOf b + n)
      totalSupply := t.totalSupply + n
      supply_eq := by
        have := Mapping.sum_update (Finset.mem_univ b) t.balanceOf (t.balanceOf b + n)
        rw [t.supply_eq] at this
        omega
      supply_lt := h }
  else throw .arithmetic

/-- `a` destroys `n` of its own tokens. -/
def burn (t : Token) (a : Address) (n : ℕ) : Tx Error Token := do
  revertIf (a = 0) .invalidSender
  if h : n ≤ t.balanceOf a then
    return { t with
      balanceOf := Function.update t.balanceOf a (t.balanceOf a - n)
      totalSupply := t.totalSupply - n
      supply_eq := by
        have := Mapping.sum_update (Finset.mem_univ a) t.balanceOf (t.balanceOf a - n)
        rw [t.supply_eq] at this
        omega
      supply_lt := lt_of_le_of_lt (Nat.sub_le _ _) t.supply_lt }
  else throw (.custom .insufficientBalance)

section SafeERC20

variable {ε : Type}

/-- `token.safeTransfer(b, n)` of the contract `self`. -/
def safeTransfer (t : Token) (self b : Address) (n : ℕ) : Tx ε Token :=
  external (t.transfer self b n)

/-- `token.safeTransferFrom(a, self, n)` of the contract `self`. -/
def safeTransferFrom (t : Token) (self a : Address) (n : ℕ) : Tx ε Token :=
  external (t.transferFrom self a self n)

/-- `token.forceApprove(spender, n)` of the contract `self`. -/
def forceApprove (t : Token) (self spender : Address) (n : ℕ) : Tx ε Token :=
  external (t.approve self spender n)

end SafeERC20

/-! ## What a transfer does -/

/-- `x` approved nobody. -/
def Reserved (t : Token) (x : Address) : Prop := ∀ y, t.allowance x y = 0

theorem Reserved.mono {t t' : Token} {x : Address} (hx : t.Reserved x)
    (h : ∀ y, t'.allowance x y ≤ t.allowance x y) : t'.Reserved x := by
  intro y
  have := h y
  rw [hx y] at this
  omega

/-- `n` went from `a` to `b`; no other balance changed, and no allowance grew. -/
structure Moved (t t' : Token) (a b : Address) (n : ℕ) : Prop where
  le : n ≤ t.balanceOf a
  src_ne : a ≠ 0
  dst_ne : b ≠ 0
  balanceOf : t'.balanceOf = moved t.balanceOf a b n
  supply : t'.totalSupply = t.totalSupply
  allowance : ∀ x y, t'.allowance x y ≤ t.allowance x y

namespace Moved

variable {t t' : Token} {a b : Address} {n : ℕ}

theorem src (h : Moved t t' a b n) (hab : a ≠ b) : t'.balanceOf a + n = t.balanceOf a := by
  have := h.le
  rw [h.balanceOf, moved_src hab]
  omega

theorem dst (h : Moved t t' a b n) (hab : a ≠ b) : t'.balanceOf b = t.balanceOf b + n := by
  rw [h.balanceOf, moved_dst hab]

theorem other (h : Moved t t' a b n) {x : Address} (ha : x ≠ a) (hb : x ≠ b) :
    t'.balanceOf x = t.balanceOf x := by
  rw [h.balanceOf, moved_ne ha hb]

end Moved

/-- The holder `x` received `n`. -/
structure Received (t t' : Token) (x : Address) (n : ℕ) : Prop where
  balance : t'.balanceOf x = t.balanceOf x + n
  supply : t'.totalSupply = t.totalSupply
  reserved : t.Reserved x → t'.Reserved x

/-- The holder `x` paid `n`. -/
structure Sent (t t' : Token) (x : Address) (n : ℕ) : Prop where
  balance : t'.balanceOf x + n = t.balanceOf x
  supply : t'.totalSupply = t.totalSupply
  reserved : t.Reserved x → t'.Reserved x

theorem Received.refl (t : Token) (x : Address) : Received t t x 0 := ⟨rfl, rfl, id⟩

theorem Sent.refl (t : Token) (x : Address) : Sent t t x 0 := ⟨rfl, rfl, id⟩

theorem Sent.trans {t t' t'' : Token} {x : Address} {n k : ℕ} (h : Sent t t' x n)
    (h' : Sent t' t'' x k) : Sent t t'' x (n + k) := by
  have h₁ := h.balance
  have h₂ := h'.balance
  exact ⟨by omega, h'.supply.trans h.supply, fun hr => h'.reserved (h.reserved hr)⟩

/-- A holder that passes on a part of what it received. -/
theorem Received.sent {t t' t'' : Token} {x : Address} {n k : ℕ} (h : Received t t' x n)
    (h' : Sent t' t'' x k) (hk : k ≤ n) : Received t t'' x (n - k) := by
  have h₁ := h.balance
  have h₂ := h'.balance
  exact ⟨by omega, h'.supply.trans h.supply, fun hr => h'.reserved (h.reserved hr)⟩

theorem Moved.received {t t' : Token} {a b : Address} {n : ℕ} (h : Moved t t' a b n)
    (hab : a ≠ b) : Received t t' b n :=
  ⟨h.dst hab, h.supply, fun hr => hr.mono (h.allowance b)⟩

theorem Moved.sent {t t' : Token} {a b : Address} {n : ℕ} (h : Moved t t' a b n)
    (hab : a ≠ b) : Sent t t' a n :=
  ⟨h.src hab, h.supply, fun hr => hr.mono (h.allowance a)⟩

theorem transfer_ok {t t' : Token} {a b : Address} {n : ℕ} (h : t.transfer a b n = .ok t') :
    Moved t t' a b n := by
  simp only [transfer, bind_ok, revertIf_ok] at h
  obtain ⟨_, ha, _, hb, h⟩ := h
  split at h
  · rename_i hn
    simp only [pure_ok] at h
    subst h
    exact ⟨hn, ha, hb, rfl, rfl, fun _ _ => le_rfl⟩
  · cases h

/-- A transfer that the sender's balance covers succeeds. -/
theorem transfer_succeeds {t : Token} {a b : Address} {n : ℕ} (ha : a ≠ 0) (hb : b ≠ 0)
    (hn : n ≤ t.balanceOf a) : ∃ t', t.transfer a b n = .ok t' := by
  refine ⟨t.move a b n hn, ?_⟩
  simp only [transfer, bind_ok, revertIf_ok]
  exact ⟨(), ha, (), hb, by rw [dif_pos hn]; rfl⟩

theorem safeTransfer_ok {ε : Type} {t t' : Token} {self b : Address} {n : ℕ}
    (h : (t.safeTransfer self b n : Tx ε Token) = .ok t') : Moved t t' self b n :=
  transfer_ok (external_ok.mp h)

theorem safeTransfer_succeeds {ε : Type} {t : Token} {self b : Address} {n : ℕ} (ha : self ≠ 0)
    (hb : b ≠ 0) (hn : n ≤ t.balanceOf self) :
    ∃ t', (t.safeTransfer self b n : Tx ε Token) = .ok t' := by
  obtain ⟨t', h⟩ := transfer_succeeds ha hb hn
  exact ⟨t', external_ok.mpr h⟩

theorem setAllowance_ne (t : Token) {a x : Address} (spender : Address) (n : ℕ) (hx : x ≠ a) :
    (t.setAllowance a spender n).allowance x = t.allowance x := by
  simp [setAllowance, Function.update_of_ne hx]

theorem setAllowance_self (t : Token) (a spender : Address) (n : ℕ) :
    (t.setAllowance a spender n).allowance a spender = n := by
  simp [setAllowance]

theorem spend_ok {t t' : Token} {spender a : Address} {n : ℕ} (h : t.spend spender a n = .ok t') :
    t'.balanceOf = t.balanceOf ∧ t'.totalSupply = t.totalSupply ∧
      (∀ x y, t'.allowance x y ≤ t.allowance x y) ∧
      (t.allowance a spender = U256.max ∨ n ≤ t.allowance a spender) := by
  unfold spend at h
  split at h
  · rename_i hmax
    cases h
    exact ⟨rfl, rfl, fun _ _ => le_rfl, .inl hmax⟩
  · simp only [bind_ok, revertIf_ok, pure_ok] at h
    obtain ⟨_, hn, rfl⟩ := h
    refine ⟨rfl, rfl, fun x y => ?_, .inr (by omega)⟩
    by_cases hx : x = a
    · subst hx
      by_cases hy : y = spender
      · subst hy
        rw [setAllowance_self]
        omega
      · simp [setAllowance, Function.update_of_ne hy]
    · rw [setAllowance_ne t _ _ hx]

theorem transferFrom_ok {t t' : Token} {spender a b : Address} {n : ℕ}
    (h : t.transferFrom spender a b n = .ok t') :
    Moved t t' a b n ∧ (t.allowance a spender = U256.max ∨ n ≤ t.allowance a spender) := by
  simp only [transferFrom, bind_ok] at h
  obtain ⟨t₁, hs, ht⟩ := h
  obtain ⟨hbal, hsup, hall, hn⟩ := spend_ok hs
  have hm := transfer_ok ht
  exact ⟨⟨hbal ▸ hm.le, hm.src_ne, hm.dst_ne, by rw [hm.balanceOf, hbal], by rw [hm.supply, hsup],
    fun x y => (hm.allowance x y).trans (hall x y)⟩, hn⟩

/-- A transfer from an account that approved at least the amount succeeds. -/
theorem transferFrom_succeeds {t : Token} {spender a b : Address} {n : ℕ} (ha : a ≠ 0) (hb : b ≠ 0)
    (hn : n ≤ t.balanceOf a) (hal : n ≤ t.allowance a spender) :
    ∃ t', t.transferFrom spender a b n = .ok t' := by
  have hs : ∃ t₁, t.spend spender a n = .ok t₁ ∧ t₁.balanceOf = t.balanceOf := by
    unfold spend
    split
    · exact ⟨t, rfl, rfl⟩
    · refine ⟨t.setAllowance a spender (t.allowance a spender - n), ?_, rfl⟩
      simp only [bind_ok, revertIf_ok]
      exact ⟨(), by omega, rfl⟩
  obtain ⟨t₁, hs, hbal⟩ := hs
  have hn₁ : n ≤ t₁.balanceOf a := by rw [hbal]; exact hn
  obtain ⟨t', ht⟩ := transfer_succeeds ha hb hn₁
  refine ⟨t', ?_⟩
  simp only [transferFrom, bind_ok]
  exact ⟨t₁, hs, ht⟩

theorem safeTransferFrom_ok {ε : Type} {t t' : Token} {self a : Address} {n : ℕ}
    (h : (t.safeTransferFrom self a n : Tx ε Token) = .ok t') : Moved t t' a self n :=
  (transferFrom_ok (external_ok.mp h)).1

theorem approve_ok {t t' : Token} {a spender : Address} {n : ℕ}
    (h : t.approve a spender n = .ok t') : t' = t.setAllowance a spender n := by
  simp only [approve, bind_ok, revertIf_ok, pure_ok] at h
  obtain ⟨_, -, _, -, rfl⟩ := h
  rfl

theorem mint_ok {t t' : Token} {b : Address} {n : ℕ} (h : t.mint b n = .ok t') :
    t'.balanceOf = Function.update t.balanceOf b (t.balanceOf b + n) ∧
      t'.allowance = t.allowance := by
  simp only [mint, bind_ok, revertIf_ok] at h
  obtain ⟨_, -, h⟩ := h
  split at h
  · simp only [pure_ok] at h
    subst h
    exact ⟨rfl, rfl⟩
  · cases h

theorem burn_ok {t t' : Token} {a : Address} {n : ℕ} (h : t.burn a n = .ok t') :
    t'.balanceOf = Function.update t.balanceOf a (t.balanceOf a - n) ∧
      t'.allowance = t.allowance := by
  simp only [burn, bind_ok, revertIf_ok] at h
  obtain ⟨_, -, h⟩ := h
  split at h
  · simp only [pure_ok] at h
    subst h
    exact ⟨rfl, rfl⟩
  · cases h

/-- No balance exceeds the supply. -/
theorem balanceOf_le (t : Token) (a : Address) : t.balanceOf a ≤ t.totalSupply := by
  rw [← t.supply_eq]; exact Mapping.le_sum (Finset.mem_univ a)

theorem balanceOf_lt (t : Token) (a : Address) : t.balanceOf a < 2 ^ 256 :=
  lt_of_le_of_lt (t.balanceOf_le a) t.supply_lt

/-! ## Calls from outside -/

/-- A call that an account makes on the token itself. -/
inductive Op where
  | transfer (dst : Address) (n : ℕ)
  | approve (spender : Address) (n : ℕ)
  | transferFrom (src dst : Address) (n : ℕ)
  | mint (dst : Address) (n : ℕ)
  | burn (n : ℕ)
  deriving DecidableEq

/-- What the call sends to `x`. -/
def Op.credit (x : Address) : Op → ℕ
  | .transfer dst n | .transferFrom _ dst n | .mint dst n => if dst = x then n else 0
  | .approve _ _ | .burn _ => 0

/-- The call, made by `caller`. -/
def Op.exec (t : Token) (caller : Address) : Op → Tx Error Token
  | .transfer dst n => t.transfer caller dst n
  | .approve spender n => t.approve caller spender n
  | .transferFrom src dst n => t.transferFrom caller src dst n
  | .mint dst n => t.mint dst n
  | .burn n => t.burn caller n

/-- What a transfer changes of the balance of `x`, when it is not one of `x`'s own tokens. -/
theorem Moved.held {t t' : Token} {a b x : Address} {n : ℕ} (h : Moved t t' a b n)
    (ha : a ≠ x ∨ n = 0) :
    t'.balanceOf x = t.balanceOf x + if b = x then n else 0 := by
  rcases ha with ha | rfl
  · split
    · rename_i hb
      subst hb
      exact h.dst ha
    · rename_i hb
      simpa using h.other (Ne.symm ha) (Ne.symm hb)
  · simp [h.balanceOf, moved_zero]

/-- What other accounts do on the token changes the balance of a contract that approved nobody
only by what they send to it. -/
theorem Op.exec_held {t t' : Token} {caller x : Address} {op : Op} (hc : caller ≠ x)
    (hx : t.Reserved x) (h : op.exec t caller = .ok t') :
    t'.balanceOf x = t.balanceOf x + op.credit x ∧ t'.Reserved x := by
  cases op with
  | transfer dst n =>
    have hm := transfer_ok h
    exact ⟨hm.held (.inl hc), hx.mono (hm.allowance x)⟩
  | approve spender n =>
    obtain rfl := approve_ok h
    exact ⟨rfl, fun y => by rw [setAllowance_ne t _ _ hc.symm]; exact hx y⟩
  | transferFrom src dst n =>
    obtain ⟨hm, hn⟩ := transferFrom_ok h
    refine ⟨hm.held ?_, hx.mono (hm.allowance x)⟩
    by_cases hs : src = x
    · -- `x` approved nobody, so nothing can be taken from it
      subst hs
      rw [hx caller] at hn
      rcases hn with hn | hn
      · exact absurd hn (by decide)
      · exact .inr (by omega)
    · exact .inl hs
  | mint dst n =>
    obtain ⟨hb, ha⟩ := mint_ok h
    refine ⟨?_, hx.mono fun y => by rw [ha]⟩
    rw [hb, Op.credit]
    by_cases hd : dst = x
    · subst hd
      rw [Function.update_self, if_pos rfl]
    · rw [Function.update_of_ne (Ne.symm hd), if_neg hd, Nat.add_zero]
  | burn n =>
    obtain ⟨hb, ha⟩ := burn_ok h
    refine ⟨?_, hx.mono fun y => by rw [ha]⟩
    rw [hb, Function.update_of_ne hc.symm]
    rfl

end Token

end Evm
