import Mathlib.Algebra.Ring.Int.Defs
import Mathlib.Algebra.Ring.Nat
import Mathlib.Data.Fintype.EquivFin

/-!
# EVM transactions: addresses, calls, reverts and checked arithmetic

What a Solidity 0.8 contract takes from the machine, independent of any contract.

* `Address`, `Msg`: an account and the context of one external call. The zero address never
  calls, and a block header carries a 64-bit timestamp: both are fields of `Msg`. `Msg.inner` is
  the context of a call that a contract makes in turn.
* `Tx ε α`: the result of an external call with custom errors `ε`. A revert keeps no state, so
  it carries only its reason (`Revert`).
* `external`, `reply`: calls to other contracts, modelled ones and ones that only answer.
* `revertIf`, `require`, `U256`, `U64`, `I256`: guards and the checked arithmetic of Solidity 0.8
  on natural numbers and integers.

Each operation has an inversion lemma (`bind_ok`, `revertIf_ok`, `U256.add_ok`, …) in the simp
set, so `simp [f]` turns `f s = .ok s'` into the guards that passed and the state written.
-/

namespace Evm

/-- A 160-bit account address. -/
structure Address where
  val : BitVec 160
  deriving DecidableEq

instance (n : Nat) : OfNat Address n := ⟨⟨BitVec.ofNat 160 n⟩⟩

instance : Inhabited Address := ⟨0⟩

instance : Finite Address :=
  Finite.of_injective (fun a => a.val.toFin) fun ⟨_⟩ ⟨_⟩ h =>
    congrArg Address.mk (BitVec.toFin_inj.mp h)

/-- For sums over all accounts, which are never computed. -/
noncomputable instance : Fintype Address := Fintype.ofFinite Address

/-- The context of one external call: `msg.sender`, `block.timestamp` and `msg.value`. -/
structure Msg where
  sender : Address
  timestamp : Nat
  value : Nat
  sender_ne : sender ≠ 0
  timestamp_lt : timestamp < 2 ^ 64

instance : Inhabited Msg := ⟨1, 0, 0, by decide, by decide⟩

/-- A call of `sender` at `timestamp` that sends `value`; any call, where no such call exists. -/
def Msg.of (sender : Address) (timestamp : Nat) (value : Nat := 0) : Msg :=
  if h : sender ≠ 0 ∧ timestamp < 2 ^ 64 then ⟨sender, timestamp, value, h.1, h.2⟩ else default

/-- The context of a call that the contract `self` makes during the call `m`. -/
def Msg.inner (m : Msg) (self : Address) (h : self ≠ 0) : Msg where
  sender := self
  timestamp := m.timestamp
  value := 0
  sender_ne := h
  timestamp_lt := m.timestamp_lt

@[simp] theorem Msg.inner_sender (m : Msg) {self : Address} (h : self ≠ 0) :
    (m.inner self h).sender = self := rfl

/-- Why a call reverted. -/
inductive Revert (ε : Type) where
  /-- A custom error: `revert E()`. -/
  | custom (e : ε)
  /-- A failed `require(c, msg)`. -/
  | reason (msg : String)
  /-- `Panic(0x11)`: checked arithmetic went out of range. -/
  | arithmetic
  /-- A call to another contract reverted. -/
  | external
  deriving DecidableEq

/-- The result of an external call with custom errors `ε`. -/
abbrev Tx (ε α : Type) := Except (Revert ε) α

section Guards

variable {ε ε' α β : Type}

/-- `if (c) revert e();` -/
def revertIf (c : Prop) [Decidable c] (e : ε) : Tx ε Unit :=
  if c then .error (.custom e) else .ok ()

/-- `require(c, msg);` -/
def require (c : Prop) [Decidable c] (msg : String) : Tx ε Unit :=
  if c then .ok () else .error (.reason msg)

/-- A call to another contract: its revert bubbles up. -/
def external : Tx ε' α → Tx ε α
  | .ok a => .ok a
  | .error _ => .error .external

/-- What another contract answered; `none` is its revert. -/
def reply : Option α → Tx ε α
  | some a => .ok a
  | none => .error .external

@[simp] theorem bind_ok {x : Tx ε α} {f : α → Tx ε β} {r : β} :
    (x >>= f) = .ok r ↔ ∃ a, x = .ok a ∧ f a = .ok r := by
  cases x with
  | ok a => simp [bind, Except.bind]
  | error e => simp [bind, Except.bind]

@[simp] theorem pure_ok {a b : α} : (pure a : Tx ε α) = .ok b ↔ a = b := by
  simp [pure, Except.pure]

theorem toOption_eq_some {ε α : Type} {x : Except ε α} {a : α} :
    x.toOption = some a ↔ x = .ok a := by
  cases x <;> simp [Except.toOption]

theorem ok_bind (a : α) (f : α → Tx ε β) : ((.ok a : Tx ε α) >>= f) = f a := rfl

theorem error_bind (r : Revert ε) (f : α → Tx ε β) :
    ((.error r : Tx ε α) >>= f) = .error r := rfl

theorem revertIf_pos {c : Prop} [Decidable c] {e : ε} (h : c) :
    revertIf c e = .error (.custom e) := if_pos h

theorem revertIf_neg {c : Prop} [Decidable c] {e : ε} (h : ¬ c) : revertIf c e = .ok () := if_neg h

@[simp] theorem revertIf_ok {c : Prop} [Decidable c] {e : ε} {u : Unit} :
    revertIf c e = .ok u ↔ ¬ c := by
  unfold revertIf; split <;> simp_all

@[simp] theorem require_ok {c : Prop} [Decidable c] {msg : String} {u : Unit} :
    (require c msg : Tx ε Unit) = .ok u ↔ c := by
  unfold require; split <;> simp_all

theorem bind_error {x : Tx ε α} {f : α → Tx ε β} {r : Revert ε} :
    (x >>= f) = .error r ↔ x = .error r ∨ ∃ a, x = .ok a ∧ f a = .error r := by
  cases x with
  | ok a => simp [bind, Except.bind]
  | error e => simp [bind, Except.bind]

theorem pure_error {a : α} {r : Revert ε} : ¬ (pure a : Tx ε α) = .error r := nofun

theorem revertIf_error {c : Prop} [Decidable c] {e : ε} {r : Revert ε} :
    revertIf c e = .error r ↔ c ∧ .custom e = r := by
  unfold revertIf; split <;> simp_all

theorem require_error {c : Prop} [Decidable c] {msg : String} {r : Revert ε} :
    (require c msg : Tx ε Unit) = .error r ↔ ¬ c ∧ .reason msg = r := by
  unfold require; split <;> simp_all

/-- The first item that fails a check of a list. -/
theorem forM_error {f : α → Tx ε Unit} {l : List α} {r : Revert ε} (h : l.forM f = .error r) :
    ∃ a ∈ l, f a = .error r := by
  rw [List.forM_eq_forM] at h
  induction l with
  | nil => cases h
  | cons a l ih =>
    rw [List.forM_cons, bind_error] at h
    obtain h | ⟨-, -, h⟩ := h
    · exact ⟨a, List.mem_cons_self, h⟩
    · obtain ⟨b, hb, h⟩ := ih h
      exact ⟨b, List.mem_cons_of_mem a hb, h⟩

/-- A list is checked item by item. -/
theorem forM_ok {f : α → Tx ε Unit} {l : List α} {u : Unit} :
    l.forM f = .ok u ↔ ∀ a ∈ l, f a = .ok () := by
  rw [List.forM_eq_forM]
  induction l with
  | nil => simp
  | cons a l ih =>
    rw [List.forM_cons, bind_ok, ih, List.forall_mem_cons]
    constructor
    · rintro ⟨⟨⟩, h⟩
      exact h
    · intro h
      exact ⟨(), h⟩

@[simp] theorem external_ok {x : Tx ε' α} {a : α} :
    (external x : Tx ε α) = .ok a ↔ x = .ok a := by
  cases x <;> simp [external]

theorem external_error {x : Tx ε' α} {r : Revert ε} (h : (external x : Tx ε α) = .error r) :
    r = .external := by
  cases x with
  | ok a => cases h
  | error e => exact (Except.error.inj h).symm

@[simp] theorem reply_ok {x : Option α} {a : α} : (reply x : Tx ε α) = .ok a ↔ x = some a := by
  cases x <;> simp [reply]

end Guards

/-! ## Checked arithmetic -/

namespace U256

variable {ε : Type}

/-- `a + b` of two `uint256`. -/
def add (a b : Nat) : Tx ε Nat := if a + b < 2 ^ 256 then .ok (a + b) else .error .arithmetic

/-- `a - b` of two `uint256`. -/
def sub (a b : Nat) : Tx ε Nat := if b ≤ a then .ok (a - b) else .error .arithmetic

/-- `a * b` of two `uint256`. -/
def mul (a b : Nat) : Tx ε Nat := if a * b < 2 ^ 256 then .ok (a * b) else .error .arithmetic

/-- `type(uint256).max`. -/
def max : Nat := 2 ^ 256 - 1

@[simp] theorem add_ok {a b c : Nat} :
    (add a b : Tx ε Nat) = .ok c ↔ a + b < 2 ^ 256 ∧ a + b = c := by
  unfold add; split <;> simp_all

@[simp] theorem sub_ok {a b c : Nat} :
    (sub a b : Tx ε Nat) = .ok c ↔ b ≤ a ∧ a - b = c := by
  unfold sub; split <;> simp_all

@[simp] theorem mul_ok {a b c : Nat} :
    (mul a b : Tx ε Nat) = .ok c ↔ a * b < 2 ^ 256 ∧ a * b = c := by
  unfold mul; split <;> simp_all

end U256

namespace U64

variable {ε : Type}

/-- `a + b` of two `uint64`. -/
def add (a b : Nat) : Tx ε Nat := if a + b < 2 ^ 64 then .ok (a + b) else .error .arithmetic

/-- The cast `uint64(a)` of a `uint256`. -/
def cast (a : Nat) : Nat := a % 2 ^ 64

@[simp] theorem add_ok {a b c : Nat} :
    (add a b : Tx ε Nat) = .ok c ↔ a + b < 2 ^ 64 ∧ a + b = c := by
  unfold add; split <;> simp_all

end U64

/-- The cast to `uint64` of a block timestamp keeps it. -/
theorem Msg.cast_timestamp (m : Msg) : U64.cast m.timestamp = m.timestamp :=
  Nat.mod_eq_of_lt m.timestamp_lt

namespace I256

variable {ε : Type}

/-- `x` is an `int256`. -/
def Fits (x : Int) : Prop := -2 ^ 255 ≤ x ∧ x < 2 ^ 255

instance (x : Int) : Decidable (Fits x) := inferInstanceAs (Decidable (_ ∧ _))

/-- The cast `int256(a)` of a `uint256`. -/
def cast (a : Nat) : Int := if a < 2 ^ 255 then a else a - 2 ^ 256

/-- An `int256` result, or the panic. -/
def check (x : Int) : Tx ε Int := if Fits x then .ok x else .error .arithmetic

/-- `a + b` of two `int256`. -/
def add (a b : Int) : Tx ε Int := check (a + b)

/-- `a - b` of two `int256`. -/
def sub (a b : Int) : Tx ε Int := check (a - b)

/-- `a * b` of two `int256`. -/
def mul (a b : Int) : Tx ε Int := check (a * b)

/-- `a / b` of two `int256` with `b` not zero: rounded toward zero. -/
def div (a b : Int) : Tx ε Int := check (a.tdiv b)

/-- `-a` of an `int256`. -/
def neg (a : Int) : Tx ε Int := check (-a)

@[simp] theorem check_ok {x y : Int} : (check x : Tx ε Int) = .ok y ↔ Fits x ∧ x = y := by
  unfold check; split <;> simp_all

@[simp] theorem add_ok {a b c : Int} : (add a b : Tx ε Int) = .ok c ↔ Fits (a + b) ∧ a + b = c :=
  check_ok

@[simp] theorem sub_ok {a b c : Int} : (sub a b : Tx ε Int) = .ok c ↔ Fits (a - b) ∧ a - b = c :=
  check_ok

@[simp] theorem mul_ok {a b c : Int} : (mul a b : Tx ε Int) = .ok c ↔ Fits (a * b) ∧ a * b = c :=
  check_ok

@[simp] theorem div_ok {a b c : Int} :
    (div a b : Tx ε Int) = .ok c ↔ Fits (a.tdiv b) ∧ a.tdiv b = c :=
  check_ok

@[simp] theorem neg_ok {a c : Int} : (neg a : Tx ε Int) = .ok c ↔ Fits (-a) ∧ -a = c := check_ok

end I256

end Evm
