import Arcane.Constitution.Fallback
import Arcane.Lib.Run

/-!
# The allowlist over the installations of an account

* `Approved`: the account allowed the selector after its latest installation.
* `denied_iff`: when only approved selectors pass.
-/

namespace Arcane
namespace Constitution
namespace Fallback

open Text Evm Abi Trace

section Allowlist

variable {s s' : State} {e : Event} {tr : List (Trace.Step State Event)} {account : Address}
  {selector : Bytes4} {x : Trace.Step State Event}

theorem onInstall_ok {m : Msg} : onInstall s m = .ok s' ↔ s.installed m.sender = false ∧
    { s with installed := Function.update s.installed m.sender true } = s' := by
  simp only [onInstall, bind_ok, revertIf_ok, pure_ok]
  simp

theorem onUninstall_ok {m : Msg} : onUninstall s m = .ok s' ↔ s.installed m.sender = true ∧
    { s with installed := Function.update s.installed m.sender false } = s' := by
  simp only [onUninstall, bind_ok, revertIf_ok, pure_ok]
  simp

theorem allow_ok {m : Msg} : allow s m selector = .ok s' ↔
    s.installed m.sender = true ∧ s.setAllowed m.sender selector true = s' := by
  simp only [allow, bind_ok, revertIf_ok, pure_ok]
  simp

theorem disallow_ok {m : Msg} : disallow s m selector = .ok s' ↔
    s.installed m.sender = true ∧ s.setAllowed m.sender selector false = s' := by
  simp only [disallow, bind_ok, revertIf_ok, pure_ok]
  simp

theorem fallback_ok {m : Msg} {data out : Bytes} : fallback s m data = .ok out ↔
    s.installed m.sender = true ∧ s.allowed m.sender (selectorOf data) = true ∧ [] = out := by
  simp only [fallback, bind_ok, revertIf_ok, pure_ok]
  simp

/-- The account calls `onInstall`. -/
def Installs (account : Address) (st : Trace.Step State Event) : Prop :=
  st.ev.msg.sender = account ∧ ∃ data, st.ev.call = .onInstall data

/-- The account calls `allow(selector)`. -/
def Allows (account : Address) (selector : Bytes4) (st : Trace.Step State Event) : Prop :=
  st.ev.msg.sender = account ∧ st.ev.call = .allow selector

/-- The account calls `disallow(selector)`. -/
def Disallows (account : Address) (selector : Bytes4) (st : Trace.Step State Event) : Prop :=
  st.ev.msg.sender = account ∧ st.ev.call = .disallow selector

/-- The account allowed the selector, and has neither disallowed it nor installed the module
since. -/
def Approved (account : Address) (selector : Bytes4) (tr : List (Trace.Step State Event)) : Prop :=
  ∃ tr₁ st tr₂, tr = tr₁ ++ st :: tr₂ ∧ Allows account selector st ∧
    ∀ x ∈ tr₂, ¬ Installs account x ∧ ¬ Disallows account selector x

theorem approved_snoc : Approved account selector (tr ++ [x]) ↔ Allows account selector x ∨
    Approved account selector tr ∧ ¬ Installs account x ∧ ¬ Disallows account selector x := by
  constructor
  · rintro ⟨tr₁, st, tr₂, htr, hst, hsince⟩
    obtain rfl | ⟨tr₃, y, rfl⟩ := tr₂.eq_nil_or_concat
    · obtain ⟨-, hx⟩ := List.append_inj' htr rfl
      obtain rfl := List.singleton_inj.mp hx
      exact .inl hst
    · have hcut : tr ++ [x] = (tr₁ ++ st :: tr₃) ++ [y] := by simpa using htr
      obtain ⟨rfl, hx⟩ := List.append_inj' hcut rfl
      obtain rfl := List.singleton_inj.mp hx
      exact .inr ⟨⟨tr₁, st, tr₃, rfl, hst, fun z hz => hsince z (by simp [hz])⟩,
        hsince x (by simp)⟩
  · rintro (hx | ⟨⟨tr₁, st, tr₂, rfl, hst, hsince⟩, hx⟩)
    · exact ⟨tr, x, [], rfl, hx, by simp⟩
    · refine ⟨tr₁, st, tr₂ ++ [x], by simp, hst, fun z hz => ?_⟩
      obtain hz | hz := List.mem_append.mp hz
      · exact hsince z hz
      · exact List.mem_singleton.mp hz ▸ hx

/-- The call bears on what the selector may do. -/
def Call.concerns (selector : Bytes4) : Call → Bool
  | .onInstall _ | .onUninstall _ => true
  | .allow x | .disallow x => x = selector

/-- The latest call of the account that bears on the selector. -/
def latestCall (account : Address) (selector : Bytes4) (tr : List (Trace.Step State Event)) :
    Option (Trace.Step State Event) :=
  (tr.filter fun st => st.ev.msg.sender = account && st.ev.call.concerns selector).getLast?

theorem latestCall_snoc (hsender : x.ev.msg.sender = account)
    (hcall : x.ev.call.concerns selector = true) :
    latestCall account selector (tr ++ [x]) = some x := by
  simp [latestCall, hsender, hcall]

theorem latestCall_snoc_of_not
    (h : ¬ (x.ev.msg.sender = account ∧ x.ev.call.concerns selector = true)) :
    latestCall account selector (tr ++ [x]) = latestCall account selector tr := by
  simp [latestCall, h]

/-- A call that does not bear on a selector of the account leaves both flags as they are. -/
theorem step_frame (h : Step s e s')
    (hframe : ¬ (e.msg.sender = account ∧ e.call.concerns selector = true)) :
    s'.installed account = s.installed account ∧
      s'.allowed account selector = s.allowed account selector := by
  obtain ⟨-, h⟩ := h
  obtain ⟨m, call⟩ := e
  have hset (value : Bool) {y : Bytes4} (hne : m.sender = account → y ≠ selector) :
      (s.setAllowed m.sender y value).allowed account selector = s.allowed account selector := by
    by_cases hm : account = m.sender
    · subst hm
      simp only [State.setAllowed, Function.update_self, Function.update_of_ne (hne rfl).symm]
    · simp only [State.setAllowed, Function.update_of_ne hm]
  cases call with
  | onInstall data =>
    obtain ⟨-, rfl⟩ := onInstall_ok.mp h
    have hne : account ≠ m.sender := fun heq => hframe ⟨heq.symm, rfl⟩
    exact ⟨Function.update_of_ne hne _ _, rfl⟩
  | onUninstall data =>
    obtain ⟨-, rfl⟩ := onUninstall_ok.mp h
    have hne : account ≠ m.sender := fun heq => hframe ⟨heq.symm, rfl⟩
    exact ⟨Function.update_of_ne hne _ _, rfl⟩
  | allow y =>
    obtain ⟨-, rfl⟩ := allow_ok.mp h
    exact ⟨rfl, hset true fun hm hy => hframe ⟨hm, decide_eq_true hy⟩⟩
  | disallow y =>
    obtain ⟨-, rfl⟩ := disallow_ok.mp h
    exact ⟨rfl, hset false fun hm hy => hframe ⟨hm, decide_eq_true hy⟩⟩

/-- A call that bears on the selector leaves it passing only if the call approves it, but for an
installation over what is allowed. -/
theorem step_own (h : Step s e s') (hsender : e.msg.sender = account)
    (hcall : e.call.concerns selector = true) {approved : Prop} :
    (s'.installed account = true → s'.allowed account selector = true →
      Allows account selector ⟨s, e, s'⟩ ∨ approved ∧ ¬ Installs account ⟨s, e, s'⟩ ∧
        ¬ Disallows account selector ⟨s, e, s'⟩) ↔
    (Installs account ⟨s, e, s'⟩ → s.allowed account selector = false) := by
  obtain ⟨-, h⟩ := h
  obtain ⟨m, call⟩ := e
  subst hsender
  cases call with
  | onInstall data =>
    obtain ⟨-, rfl⟩ := onInstall_ok.mp h
    simp [Installs, Allows]
  | onUninstall data =>
    obtain ⟨-, rfl⟩ := onUninstall_ok.mp h
    simp [Installs]
  | allow y =>
    obtain rfl : y = selector := of_decide_eq_true hcall
    simp [Installs, Allows]
  | disallow y =>
    obtain rfl : y = selector := of_decide_eq_true hcall
    obtain ⟨-, rfl⟩ := disallow_ok.mp h
    simp [Installs, State.setAllowed]

/-- When a selector that passes is approved, in terms of the latest call that bears on it. -/
theorem approved_iff (h : Run Step .initial tr s) :
    (s.installed account = true → s.allowed account selector = true →
      Approved account selector tr) ↔
    ∀ st, latestCall account selector tr = some st → Installs account st →
      st.pre.allowed account selector = false := by
  induction h with
  | nil =>
    refine iff_of_true (fun hinstalled => ?_) fun st hst => ?_
    · cases hinstalled
    · cases hst
  | @snoc tr s s' e _ hst ih =>
    rw [approved_snoc]
    by_cases hown : e.msg.sender = account ∧ e.call.concerns selector = true
    · have hlatest : latestCall account selector (tr ++ [⟨s, e, s'⟩]) = some ⟨s, e, s'⟩ :=
        latestCall_snoc hown.1 hown.2
      rw [hlatest, step_own hst hown.1 hown.2]
      simp
    · obtain ⟨hinstalled, hallowed⟩ := step_frame hst hown
      have hlatest : latestCall account selector (tr ++ [⟨s, e, s'⟩]) =
          latestCall account selector tr := latestCall_snoc_of_not hown
      have hnone : ¬ Allows account selector ⟨s, e, s'⟩ ∧ ¬ Installs account ⟨s, e, s'⟩ ∧
          ¬ Disallows account selector ⟨s, e, s'⟩ := by
        refine ⟨fun hx => hown ⟨hx.1, ?_⟩, fun hx => hown ⟨hx.1, ?_⟩, fun hx => hown ⟨hx.1, ?_⟩⟩
        · rw [hx.2]
          exact decide_eq_true rfl
        · obtain ⟨data, hdata⟩ := hx.2
          rw [hdata]
          rfl
        · rw [hx.2]
          exact decide_eq_true rfl
      rw [hlatest, hinstalled, hallowed, ← ih]
      simp [hnone]

/-- The zero address makes no calls. -/
theorem ne_zero_of_installed (h : Run Step .initial tr s)
    (hinstalled : s.installed account = true) :
    account ≠ 0 := by
  rintro rfl
  have hzero : s.installed 0 = false :=
    h.invariant (I := fun s => s.installed 0 = false) rfl fun s e s' ih hst => by
      have hframe : ¬ (e.msg.sender = 0 ∧ e.call.concerns (0 : Bytes4) = true) :=
        fun hown => e.msg.sender_ne hown.1
      exact (step_frame hst hframe).1.trans ih
  rw [hzero] at hinstalled
  cases hinstalled

section Entry

variable {data : Bytes}

theorem select_eq_fallback : select data = some .fallback ↔
    data ≠ [] ∧ (data.length < 4 ∨ selectorOf data ∉ functions) := by
  unfold select
  by_cases hnil : data = []
  · simp [hnil]
  · by_cases hshort : data.length < 4
    · simp [hnil, hshort]
    · simp only [hnil, hshort, if_false, not_false_eq_true, false_or, ne_eq, true_and]
      split_ifs <;> simp_all [functions]

/-- A selector that is filled up with zeros ends in one. -/
theorem selectorOf_mod (h : data.length < 4) : (selectorOf data).toNat % 256 = 0 := by
  obtain ⟨k, hk⟩ : ∃ k, 4 - data.length = k + 1 := ⟨3 - data.length, by omega⟩
  have htake : (data ++ List.replicate 4 0).take 4 = (data ++ List.replicate k 0) ++ [0] := by
    rw [List.take_append, List.take_of_length_le (by omega), hk, List.take_replicate,
      min_eq_left (by omega), List.replicate_succ', List.append_assoc]
  rw [selectorOf, htake, ofBytes_concat, BitVec.toNat_ofNat]
  have hzero : (0 : UInt8).toNat = 0 := rfl
  omega

/-- The functions do not reach the entry point of the forwarded calls. -/
theorem not_mem_functions (h : select data = some .fallback) : selectorOf data ∉ functions := by
  obtain ⟨-, hshort | hnot⟩ := select_eq_fallback.mp h
  · have hmod := selectorOf_mod hshort
    have hall : ∀ f ∈ functions, f.toNat % 256 ≠ 0 := by simp [functions]
    exact fun hmem => hall _ hmem hmod
  · exact hnot

theorem selectorOf_toBytes (selector : Bytes4) :
    selectorOf (toBytes 4 selector.toNat) = selector := by
  have hlt : selector.toNat < 256 ^ 4 := by
    have := selector.isLt
    omega
  have htake : (toBytes 4 selector.toNat ++ List.replicate 4 0).take 4 = toBytes 4 selector.toNat :=
    List.take_left' (length_toBytes 4 _)
  rw [selectorOf, htake, ofBytes_toBytes hlt, BitVec.ofNat_toNat, BitVec.setWidth_eq]

theorem select_toBytes {selector : Bytes4} (h : selector ∉ functions) :
    select (toBytes 4 selector.toNat) = some .fallback := by
  have hlen := length_toBytes 4 selector.toNat
  have hne : toBytes 4 selector.toNat ≠ [] := by
    rintro hnil
    rw [hnil] at hlen
    cases hlen
  rw [select_eq_fallback, selectorOf_toBytes]
  exact ⟨hne, .inr h⟩

theorem dispatch_fallback {m : Msg} {r : State × Bytes} (h : select data = some .fallback) :
    dispatch s m data = .ok r ↔ m.value = 0 ∧ s.installed m.sender = true ∧
      s.allowed m.sender (selectorOf data) = true ∧ (s, []) = r := by
  simp only [dispatch, h, bind_ok, revertIf_ok, fallback_ok, pure_ok]
  constructor
  · rintro ⟨-, hvalue, out, ⟨hinstalled, hallowed, rfl⟩, hr⟩
    exact ⟨not_not.mp hvalue, hinstalled, hallowed, hr⟩
  · rintro ⟨hvalue, hinstalled, hallowed, hr⟩
    exact ⟨(), not_not.mpr hvalue, [], ⟨hinstalled, hallowed, rfl⟩, hr⟩

end Entry

/-- Forwarded calls of the account that reach the entry point with a selector pass only if the
selector is approved: this holds if and only if no call can reach it with the selector, or the
latest call of the account that bears on the selector is no installation over what is allowed. -/
theorem denied_iff (h : Run Step .initial tr s) (account : Address) (selector : Bytes4) :
    (∀ m data r, m.sender = account → select data = some .fallback →
      selectorOf data = selector → dispatch s m data = .ok r → Approved account selector tr) ↔
    selector ∈ functions ∨ ∀ st, latestCall account selector tr = some st →
      Installs account st → st.pre.allowed account selector = false := by
  rw [← approved_iff h]
  constructor
  · intro hdenied
    by_contra hnot
    obtain ⟨hmem, hpass⟩ := not_or.mp hnot
    refine hpass fun hinstalled hallowed => ?_
    let m : Msg := ⟨account, 0, 0, ne_zero_of_installed h hinstalled, by decide⟩
    have hselector := selectorOf_toBytes selector
    have hselect := select_toBytes hmem
    refine hdenied m _ (s, []) rfl hselect hselector ?_
    rw [dispatch_fallback hselect, hselector]
    exact ⟨rfl, hinstalled, hallowed, rfl⟩
  · rintro hcond m data r rfl hselect rfl hok
    obtain ⟨-, hinstalled, hallowed, -⟩ := (dispatch_fallback hselect).mp hok
    exact (hcond.resolve_left (not_mem_functions hselect)) hinstalled hallowed

end Allowlist

namespace Demo

def account : Address := 0xacc

def selector : Bytes4 := 0xdeadbeef

/-- A call of the account. -/
def step (s : State) (c : Call) : Trace.Step State Event :=
  ⟨s, ⟨.of account 0, c⟩, transact exec s ⟨.of account 0, c⟩⟩

theorem step_accepted {s : State} {c : Call} (h : (exec s ⟨.of account 0, c⟩).isOk = true) :
    Step s (step s c).ev (step s c).post := by
  refine ⟨trivial, ?_⟩
  simp only [step, transact]
  cases hexec : exec s ⟨.of account 0, c⟩ with
  | ok s' => rfl
  | error r =>
    rw [hexec] at h
    cases h

/-- The account installs the module. -/
def install : Trace.Step State Event := step .initial (.onInstall [])

/-- It allows the selector. -/
def approve : Trace.Step State Event := step install.post (.allow selector)

/-- It uninstalls the module. -/
def uninstall : Trace.Step State Event := step approve.post (.onUninstall [])

/-- It installs the module again. -/
def reinstall : Trace.Step State Event := step uninstall.post (.onInstall [])

theorem run_approve : Run Step .initial (([] ++ [install]) ++ [approve]) approve.post := by
  have hinstall : Step .initial install.ev install.post := step_accepted (by decide)
  have happrove : Step install.post approve.ev approve.post := step_accepted (by decide)
  exact (Run.nil.snoc install.ev hinstall).snoc approve.ev happrove

theorem run_reinstall : Run Step .initial
    (((([] ++ [install]) ++ [approve]) ++ [uninstall]) ++ [reinstall]) reinstall.post := by
  have huninstall : Step approve.post uninstall.ev uninstall.post :=
    step_accepted (by decide)
  have hreinstall : Step uninstall.post reinstall.ev reinstall.post :=
    step_accepted (by decide)
  exact (run_approve.snoc uninstall.ev huninstall).snoc reinstall.ev hreinstall

/-- What passes after the first installation is approved. -/
theorem approved_passes : ∃ tr, Run Step .initial tr approve.post ∧
    ∀ m data r, m.sender = account → select data = some .fallback →
      selectorOf data = selector → dispatch approve.post m data = .ok r →
        Approved account selector tr := by
  refine ⟨_, run_approve, ?_⟩
  refine (denied_iff run_approve account selector).mpr (.inr fun st hst hinstalls => ?_)
  have hlatest : latestCall account selector (([] ++ [install]) ++ [approve]) = some approve :=
    latestCall_snoc rfl rfl
  obtain rfl := Option.some.inj (hlatest.symm.trans hst)
  obtain ⟨-, data, hdata⟩ := hinstalls
  cases hdata

/-- After the second the selector passes still, though nothing is approved since. -/
theorem stale_passes : ∃ tr, Run Step .initial tr reinstall.post ∧
    select [0xde, 0xad, 0xbe, 0xef] = some .fallback ∧
    selectorOf [0xde, 0xad, 0xbe, 0xef] = selector ∧
    (∃ r, dispatch reinstall.post (.of account 0) [0xde, 0xad, 0xbe, 0xef] = .ok r) ∧
    ¬ Approved account selector tr := by
  have hselect : select [0xde, 0xad, 0xbe, 0xef] = some .fallback :=
    select_eq_fallback.mpr (by decide)
  have hpass : dispatch reinstall.post (.of account 0) [0xde, 0xad, 0xbe, 0xef] =
      .ok (reinstall.post, []) :=
    (dispatch_fallback hselect).mpr ⟨rfl, by decide, by decide, rfl⟩
  refine ⟨_, run_reinstall, hselect, by decide, ⟨_, hpass⟩, ?_⟩
  have hinstalls : Installs account reinstall := ⟨rfl, [], rfl⟩
  rw [approved_snoc]
  rintro (⟨-, hallows⟩ | ⟨-, hnot, -⟩)
  · cases hallows
  · exact hnot hinstalls

end Demo

end Fallback
end Constitution
end Arcane
