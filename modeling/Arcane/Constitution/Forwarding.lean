import Arcane.Constitution.Allowlist

/-!
# Forwarded calls and the policy

An account forwards to the module what it does not recognise, so the module takes what a third party
wrote for a call of the account.

* `exec_unchanged_iff`: which calls of the functions that write leave the policy as it is.
* `receive_unchanged_iff`: which messages of a third party do.
-/

namespace Arcane
namespace Constitution
namespace Fallback

open Text Evm Abi

/-- An account that forwards every call that it does not recognise. -/
structure Account where
  address : Address
  address_ne : address ≠ 0
  recognises : Bytes → Bool
  /-- Whether the sender is appended to what is forwarded. -/
  appendsSender : Bool
  /-- The value that it passes on with a call; nothing fixes it. -/
  valueOf : Msg → Bytes → ℕ
  /-- It does not have the functions of the module. -/
  recognises_function : ∀ data, 4 ≤ data.length → selectorOf data ∈ functions →
    recognises data = false

/-- The calldata that the account forwards for a call of `sender`. -/
def Account.forwarded (A : Account) (sender : Address) (data : Bytes) : Bytes :=
  data ++ if A.appendsSender then packedAddress sender else []

/-- The message in which it forwards the calldata that came with `m`. -/
def Account.message (A : Account) (m : Msg) (data : Bytes) : Msg :=
  { m with sender := A.address, sender_ne := A.address_ne, value := A.valueOf m data }

/-- The module after a call of the account, by anyone. -/
def Account.receive (A : Account) (s : State) (m : Msg) (data : Bytes) : State :=
  if A.recognises data then s
  else
    match dispatch s (A.message m data) (A.forwarded m.sender data) with
    | .ok (s', _) => s'
    | .error _ => s

/-- What the call of the account would change. -/
def Call.Effective (s : State) (account : Address) : Call → Prop
  | .onInstall _ => s.installed account = false
  | .onUninstall _ => s.installed account = true
  | .allow selector => s.installed account = true ∧ s.allowed account selector = false
  | .disallow selector => s.installed account = true ∧ s.allowed account selector = true

section Forwarding

variable {s s' : State} {m : Msg} {data : Bytes} {c : Call} {A : Account}

theorem setAllowed_eq_self_iff {account : Address} {selector : Bytes4} {value : Bool} :
    (s.setAllowed account selector value).allowed = s.allowed ↔
      value = s.allowed account selector := by
  rw [State.setAllowed, Function.update_eq_self_iff, Function.update_eq_self_iff]

/-- An accepted call leaves the policy as it is if and only if it has nothing to change. -/
theorem exec_unchanged_iff (h : exec s ⟨m, c⟩ = .ok s') :
    s'.installed = s.installed ∧ s'.allowed = s.allowed ↔ ¬ c.Effective s m.sender := by
  cases c with
  | onInstall data =>
    obtain ⟨hinstalled, rfl⟩ := onInstall_ok.mp h
    simp [Call.Effective, Function.update_eq_self_iff, hinstalled]
  | onUninstall data =>
    obtain ⟨hinstalled, rfl⟩ := onUninstall_ok.mp h
    simp [Call.Effective, Function.update_eq_self_iff, hinstalled]
  | allow selector =>
    obtain ⟨hinstalled, rfl⟩ := allow_ok.mp h
    rw [setAllowed_eq_self_iff]
    simp [Call.Effective, State.setAllowed, hinstalled]
  | disallow selector =>
    obtain ⟨hinstalled, rfl⟩ := disallow_ok.mp h
    rw [setAllowed_eq_self_iff]
    simp [Call.Effective, State.setAllowed, hinstalled]

/-- A call that has something to change is accepted. -/
theorem exec_of_effective (h : c.Effective s m.sender) : ∃ s', exec s ⟨m, c⟩ = .ok s' := by
  cases c with
  | onInstall data => exact ⟨_, onInstall_ok.mpr ⟨h, rfl⟩⟩
  | onUninstall data => exact ⟨_, onUninstall_ok.mpr ⟨h, rfl⟩⟩
  | allow selector => exact ⟨_, allow_ok.mpr ⟨h.1, rfl⟩⟩
  | disallow selector => exact ⟨_, disallow_ok.mpr ⟨h.1, rfl⟩⟩

theorem dispatch_call (h : select data = some (.call c)) {r : State × Bytes} :
    dispatch s m data = .ok r ↔ m.value = 0 ∧ ∃ s', exec s ⟨m, c⟩ = .ok s' ∧ (s', []) = r := by
  simp only [dispatch, h, bind_ok, revertIf_ok, pure_ok]
  simp

/-- What selects no function that writes changes nothing. -/
theorem dispatch_state {r : State × Bytes} (h : ∀ c, select data ≠ some (.call c))
    (hr : dispatch s m data = .ok r) : r.1 = s := by
  unfold dispatch at hr
  split at hr
  · cases hr
  · simp only [bind_ok, pure_ok] at hr
    obtain ⟨-, -, rfl⟩ := hr
    rfl
  · simp only [bind_ok, pure_ok] at hr
    obtain ⟨-, -, -, -, rfl⟩ := hr
    rfl
  · simp only [bind_ok, pure_ok] at hr
    obtain ⟨-, -, rfl⟩ := hr
    rfl
  · next c hc => exact absurd hc (h c)

theorem receive_of_ok (hnot : A.recognises data = false) {r : State × Bytes}
    (h : dispatch s (A.message m data) (A.forwarded m.sender data) = .ok r) :
    A.receive s m data = r.1 := by
  simp [Account.receive, hnot, h]

theorem receive_of_error (hnot : A.recognises data = false) {err : Revert Error}
    (h : dispatch s (A.message m data) (A.forwarded m.sender data) = .error err) :
    A.receive s m data = s := by
  simp [Account.receive, hnot, h]

end Forwarding

/-- A call of the account by anyone leaves the policy of every account as it is if and only if the
account recognises it, or passes value on with it, or what is forwarded selects no function that
writes and has something to change. -/
theorem receive_unchanged_iff (A : Account) (s : State) (m : Msg) (data : Bytes) :
    (A.receive s m data).installed = s.installed ∧ (A.receive s m data).allowed = s.allowed ↔
      A.recognises data = true ∨ (A.message m data).value ≠ 0 ∨
        ∀ c, select (A.forwarded m.sender data) = some (.call c) → ¬ c.Effective s A.address := by
  by_cases hrec : A.recognises data = true
  · simp [Account.receive, hrec]
  · have hnot : A.recognises data = false := Bool.not_eq_true _ ▸ hrec
    by_cases hcall : ∃ c, select (A.forwarded m.sender data) = some (.call c)
    · obtain ⟨c, hc⟩ := hcall
      have hcond : (A.recognises data = true ∨ (A.message m data).value ≠ 0 ∨ ∀ c',
          select (A.forwarded m.sender data) = some (.call c') → ¬ c'.Effective s A.address) ↔
          ((A.message m data).value ≠ 0 ∨ ¬ c.Effective s A.address) := by
        simp [hnot, hc]
      rw [hcond]
      cases hr : dispatch s (A.message m data) (A.forwarded m.sender data) with
      | ok r =>
        obtain ⟨hvalue, s', hexec, rfl⟩ := (dispatch_call hc).mp hr
        rw [receive_of_ok hnot hr, exec_unchanged_iff hexec]
        exact ⟨.inr, fun h => h.resolve_left (not_not.mpr hvalue)⟩
      | error err =>
        rw [receive_of_error hnot hr]
        refine iff_of_true ⟨rfl, rfl⟩ (or_iff_not_imp_left.mpr fun hvalue heffective => ?_)
        obtain ⟨s', hexec⟩ := exec_of_effective (m := A.message m data) heffective
        cases hr.symm.trans ((dispatch_call hc).mpr ⟨not_not.mp hvalue, s', hexec, rfl⟩)
    · have hnone : ∀ c, select (A.forwarded m.sender data) ≠ some (.call c) :=
        fun c hc => hcall ⟨c, hc⟩
      refine iff_of_true ?_ (.inr (.inr fun c hc => absurd hc (hnone c)))
      cases hr : dispatch s (A.message m data) (A.forwarded m.sender data) with
      | ok r =>
        rw [receive_of_ok hnot hr, dispatch_state hnone hr]
        exact ⟨rfl, rfl⟩
      | error err =>
        rw [receive_of_error hnot hr]
        exact ⟨rfl, rfl⟩

namespace Demo

/-- An account that recognises nothing. -/
def smartAccount : Account where
  address := account
  address_ne := by decide
  recognises _ := false
  appendsSender := true
  valueOf m _ := m.value
  recognises_function _ _ _ := rfl

/-- The calldata of `allow(selector)`. -/
def allowData : Bytes :=
  [0x61, 0x99, 0xf7, 0x54] ++ ([0xde, 0xad, 0xbe, 0xef] ++ List.replicate 28 0)

/-- The module after a third party has sent that calldata to the account. -/
def opened : State := smartAccount.receive install.post (.of 0xbad 0) allowData

/-- The third party allows the selector, and its calls pass from then on. -/
theorem outsider_allows : install.post.allowed account selector = false ∧
    opened.allowed account selector = true ∧
    dispatch opened (smartAccount.message (.of 0xbad 0) [0xde, 0xad, 0xbe, 0xef])
      (smartAccount.forwarded 0xbad [0xde, 0xad, 0xbe, 0xef]) = .ok (opened, []) := by
  have hselect : select (smartAccount.forwarded 0xbad [0xde, 0xad, 0xbe, 0xef]) = some .fallback :=
    select_eq_fallback.mpr (by decide)
  refine ⟨by decide, by decide, (dispatch_fallback hselect).mpr ?_⟩
  exact ⟨rfl, by decide, by decide, rfl⟩

end Demo

end Fallback
end Constitution
end Arcane
