import Arcane.Constitution.Adapters
import Arcane.Constitution.Outflow

/-!
# Calldata that an adapter does not recognise

`decode` is to revert with NotApplicable, and the rule is then to let the call pass.

* `enforce_declined`: a rule whose adapter declines is left with its own checks.
* `validator_added`, `hook_added`, `executor_added`: added to a constitution, it rejects no call
  that it does not reject by them.
* `declined_iff`: the Drift adapter has its length check first.
-/

namespace Arcane
namespace Constitution

open Text Evm Abi Trace Adapter

/-- `decode` reverts with NotApplicable. -/
def Adapter.Kind.Declines (kind : Kind) (data : Bytes) : Prop :=
  ∃ selector, kind.decode data = .error (.custom (.notApplicable selector))

/-- What a rule checks of a call without an adapter. -/
structure Rule.Inline (r : Rule) (c : Execution) : Prop where
  maxTradeSize : r.kind = 1 → ∃ max, decodeUint r.params = some max ∧ c.value ≤ max ∧
    (68 ≤ c.callData.length → slice c.callData 0 4 = transferSelector →
      ofBytes (slice c.callData 36 32) ≤ max)
  venueBlacklist : r.kind = 2 → ∃ blacklist, decodeAddresses r.params = some blacklist ∧
    c.target ∉ blacklist
  unauditedContracts : r.kind = 3 → ∃ whitelist, decodeAddresses r.params = some whitelist ∧
    (whitelist = [] ∨ c.target ∈ whitelist)

/-- What a rule checks of the balances before and after a call. -/
def Rule.InlineOutflow (r : Rule) (pre post : ℕ) : Prop :=
  r.kind = 1 → ∀ max, decodeUint r.params = some max → pre - post ≤ max

/-- The constitution `hash'` of `s'` is the constitution `hash` of `s` with one more rule. -/
structure Added (s s' : State) (hash hash' : Bytes32) (r : Rule) : Prop where
  ne_zero : hash' ≠ 0
  exist : s'.registry.exist hash' = true
  rules : ∃ before after, s.registry.rules hash = before ++ after ∧
    s'.registry.rules hash' = before ++ r :: after

/-- Both checks of the hook accept a call that moves the balance of the account from `pre` to
`post`. -/
def HookAccepts (adapters : Adapters) (s : State) (m : Msg) (msgData : Bytes) (pre post : ℕ) :
    Prop :=
  ∃ data, Hook.preCheck adapters (fun _ => some pre) s.registry s.hook m msgData = .ok data ∧
    Hook.postCheck (fun _ => some post) s.hook m data.encode = .ok ()

/-- No module rejects a call with the calldata `data` for one more rule with the adapter, unless for
what the rule checks without it. -/
structure Harmless (kind : Kind) (data : Bytes) : Prop where
  validator : ∀ adapters s s' m account callData c r,
    Added s s' (s.validator.constitutionOf account) (s'.validator.constitutionOf account) r →
    s'.validator.entryPointOf account = s.validator.entryPointOf account →
    r.Uses adapters kind → Validator.decodeCall callData = .ok c → c.callData = data →
    r.Inline c →
    Validator.validateUserOp adapters s.registry s.validator m account callData = .ok () →
    Validator.validateUserOp adapters s'.registry s'.validator m account callData = .ok ()
  hook : ∀ adapters s s' m msgData c r pre post,
    Added s s' (s.hook.constitutionOf m.sender) (s'.hook.constitutionOf m.sender) r →
    r.Uses adapters kind → Hook.decodeOuter msgData (slice msgData 0 4) = .ok c →
    c.callData = data → pre < 2 ^ 256 → r.Inline c → r.InlineOutflow pre post →
    HookAccepts adapters s m msgData pre post → HookAccepts adapters s' m msgData pre post
  executor : ∀ adapters s s' m account c r sent,
    Added s s' (s.executor.constitutionOf account) (s'.executor.constitutionOf account) r →
    r.Uses adapters kind → c.callData = data → r.Inline c →
    Executor.execute adapters s.registry s.executor m account c = .ok sent →
    Executor.execute adapters s'.registry s'.executor m account c = .ok sent

section Rules

variable {adapters : Adapters} {kind : Kind} {data : Bytes} {r : Rule} {c : Execution}

/-- NotApplicable is what the modules take for a rule that does not apply. -/
theorem tryDecode_declined (huses : r.Uses adapters kind) (h : kind.Declines data) :
    tryDecode adapters r.adapter data = .ok default := by
  obtain ⟨selector, hdecode⟩ := h
  have hanswer : adapters r.adapter data =
      .reverted (notApplicable ++ (selector ++ List.replicate 28 0)) := by
    rw [huses.answer, hdecode]
    rfl
  have hlen : 4 ≤ (notApplicable ++ (selector ++ List.replicate 28 0)).length := by
    rw [List.length_append]
    exact Nat.le_add_right 4 _
  simp only [tryDecode, hanswer]
  exact if_pos ⟨hlen, rfl⟩

/-- The executor's checks of a rule whose adapter declines. -/
theorem enforce_declined (huses : r.Uses adapters kind) (h : kind.Declines c.callData)
    (hinline : r.Inline c) : Executor.enforce adapters r c = .ok () := by
  have hdecode := tryDecode_declined huses h
  rw [Executor.enforce]
  split_ifs with h₁ h₂ h₃ h₀ hne h₄ hne
  · obtain ⟨max, hmax, hvalue, htransfer⟩ := hinline.maxTradeSize h₁
    have hcheck : Executor.checkTransfer c.callData max = .ok () := by
      rw [Executor.checkTransfer]
      split_ifs with hsel
      · exact require_ok.mpr (htransfer hsel.1 hsel.2)
      · rfl
    simp only [Executor.checkMaxTradeSize, hmax, decoded, ok_bind, bind_ok, require_ok]
    refine ⟨(), hvalue, (), ?_, hcheck⟩
    rw [checkAdapterSize, if_neg huses.adapter_ne, Executor.tryDecode, hdecode, ok_bind]
    exact require_ok.mpr (Nat.zero_le max)
  · obtain ⟨blacklist, hparams, hmem⟩ := hinline.venueBlacklist h₂
    rw [Executor.checkVenueBlacklist, checkVenueBlacklist, hparams]
    exact require_ok.mpr hmem
  · obtain ⟨whitelist, hparams, hmem⟩ := hinline.unauditedContracts h₃
    rw [Executor.checkUnauditedContracts, checkUnauditedContracts, hparams]
    exact require_ok.mpr hmem
  · rfl
  · rw [Executor.checkMaxLeverage, checkMaxLeverage, Executor.tryDecode, hdecode, ok_bind]
    rfl
  · rfl
  · rw [Executor.checkSubdelegationBound, checkSubdelegationBound, Executor.tryDecode, hdecode,
      ok_bind]
    rfl
  · rfl

/-- The validator's are the same. -/
theorem validator_enforce_declined (huses : r.Uses adapters kind)
    (h : kind.Declines c.callData) (hinline : r.Inline c) :
    Validator.enforce adapters r c = .ok () := by
  rw [validator_enforce fun _ => huses.adapter_ne]
  exact enforce_declined huses h hinline

end Rules

section Modules

variable {adapters : Adapters} {kind : Kind} {s s' : State} {m : Msg} {account : Address}
  {c : Execution} {r : Rule} {callData msgData sent : Bytes}

/-- The rules of the larger constitution. -/
theorem Added.mem {hash hash' : Bytes32} (h : Added s s' hash hash' r) {r' : Rule}
    (hr : r' ∈ s'.registry.rules hash') : r' = r ∨ r' ∈ s.registry.rules hash := by
  obtain ⟨before, after, hrules, hrules'⟩ := h.rules
  rw [hrules', List.mem_append, List.mem_cons] at hr
  rw [hrules, List.mem_append]
  tauto

theorem validator_added
    (h : Added s s' (s.validator.constitutionOf account) (s'.validator.constitutionOf account) r)
    (hentry : s'.validator.entryPointOf account = s.validator.entryPointOf account)
    (hread : Validator.decodeCall callData = .ok c)
    (hrule : Validator.enforce adapters r c = .ok ())
    (hok : Validator.validateUserOp adapters s.registry s.validator m account callData = .ok ()) :
    Validator.validateUserOp adapters s'.registry s'.validator m account callData = .ok () := by
  simp only [Validator.validateUserOp, bind_ok, revertIf_ok, require_ok, external_ok,
    getConstitution_ok, hread, Except.ok.injEq, forM_ok] at hok ⊢
  obtain ⟨-, -, -, hsender, rules, ⟨-, rfl⟩, c, rfl, hrules⟩ := hok
  rw [hentry]
  refine ⟨(), h.ne_zero, (), hsender, _, ⟨h.exist, rfl⟩, c, rfl, fun r' hr' => ?_⟩
  obtain rfl | hmem := h.mem hr'
  · exact hrule
  · exact hrules r' hmem

theorem executor_added
    (h : Added s s' (s.executor.constitutionOf account) (s'.executor.constitutionOf account) r)
    (hrule : Executor.enforce adapters r c = .ok ())
    (hok : Executor.execute adapters s.registry s.executor m account c = .ok sent) :
    Executor.execute adapters s'.registry s'.executor m account c = .ok sent := by
  simp only [Executor.execute, bind_ok, revertIf_ok, external_ok, getConstitution_ok, forM_ok,
    pure_ok] at hok ⊢
  obtain ⟨-, -, -, hsender, rules, ⟨-, rfl⟩, -, hrules, hsent⟩ := hok
  refine ⟨(), h.ne_zero, (), hsender, _, ⟨h.exist, rfl⟩, (), fun r' hr' => ?_, hsent⟩
  obtain rfl | hmem := h.mem hr'
  · exact hrule
  · exact hrules r' hmem

/-- The last cap is that of the rule, or the last one of the smaller constitution. -/
theorem last_added {hash hash' : Bytes32} {last : ℕ} (h : Added s s' hash hash' r)
    (hlast : (caps (s'.registry.rules hash')).getLast? = some last) :
    last ∈ caps [r] ∨ (caps (s.registry.rules hash)).getLast? = some last := by
  obtain ⟨before, after, hrules, hrules'⟩ := h.rules
  have hcaps : caps (before ++ r :: after) = caps before ++ (caps [r] ++ caps after) := by
    simp only [caps, ← List.filterMap_append, List.singleton_append]
  have hcaps' : caps (before ++ after) = caps before ++ caps after := List.filterMap_append
  rw [hrules', hcaps, List.getLast?_append, List.getLast?_append] at hlast
  rw [hrules, hcaps', List.getLast?_append]
  cases hafter : (caps after).getLast? with
  | some max =>
    right
    simpa [hafter] using hlast
  | none =>
    cases hr : (caps [r]).getLast? with
    | some max =>
      left
      have hmax : max = last := by simpa [hafter, hr] using hlast
      exact hmax ▸ List.mem_of_getLast? hr
    | none =>
      right
      simpa [hafter, hr] using hlast

theorem preCheck_added {balanceOf : Address → Option ℕ} {data : Hook.HookData}
    (h : Added s s' (s.hook.constitutionOf m.sender) (s'.hook.constitutionOf m.sender) r)
    (hread : Hook.decodeOuter msgData (slice msgData 0 4) = .ok c)
    (hrule : Executor.enforce adapters r c = .ok ())
    (hok : Hook.preCheck adapters balanceOf s.registry s.hook m msgData = .ok data) :
    ∃ data', Hook.preCheck adapters balanceOf s'.registry s'.hook m msgData = .ok data' ∧
      data'.preBalance = data.preBalance := by
  obtain ⟨-, hlen, hsel, -, c', hc, hrules, hbal⟩ := preCheck_eq_ok.mp hok
  obtain rfl := Except.ok.inj (hread.symm.trans hc)
  have hold := (hook_rules (0, false)).mp ⟨_, hrules⟩
  obtain ⟨acc, hnew⟩ := (hook_rules (0, false)).mpr fun r' hr' => (h.mem hr').elim
    (fun heq => heq ▸ hrule) (hold r')
  exact ⟨⟨acc.1, data.preBalance, acc.2⟩,
    preCheck_eq_ok.mpr ⟨h.ne_zero, hlen, hsel, h.exist, c, hread, hnew, hbal⟩, rfl⟩

/-- What `preCheck` hands on is what `postCheck` reads. -/
theorem decodeHookData_preCheck {balanceOf : Address → Option ℕ} {data : Hook.HookData}
    (hok : Hook.preCheck adapters balanceOf s.registry s.hook m msgData = .ok data)
    (hpre : data.preBalance < 2 ^ 256) : Hook.decodeHookData data.encode = some data := by
  refine decodeHookData_encode ?_ hpre
  have hlast := preCheck_last hok
  cases hcap : (caps (s.registry.rules (s.hook.constitutionOf m.sender))).getLast? with
  | some max =>
    rw [(preCheck_maxTradeSize hok hcap).1]
    exact caps_lt (List.mem_of_getLast? hcap)
  | none =>
    rw [hcap] at hlast
    rw [(Prod.mk.inj hlast).1]
    decide

theorem hook_added {pre post : ℕ}
    (h : Added s s' (s.hook.constitutionOf m.sender) (s'.hook.constitutionOf m.sender) r)
    (hread : Hook.decodeOuter msgData (slice msgData 0 4) = .ok c) (hpre : pre < 2 ^ 256)
    (hrule : Executor.enforce adapters r c = .ok ()) (houtflow : r.InlineOutflow pre post)
    (hok : HookAccepts adapters s m msgData pre post) :
    HookAccepts adapters s' m msgData pre post := by
  obtain ⟨data, hbefore, hafter⟩ := hok
  obtain ⟨data', hbefore', hbal⟩ := preCheck_added h hread hrule hbefore
  obtain ⟨-, -, -, -, -, -, -, hbalance⟩ := preCheck_eq_ok.mp hbefore
  obtain rfl : pre = data.preBalance := Option.some.inj hbalance
  have hdata := decodeHookData_preCheck hbefore hpre
  have hdata' := decodeHookData_preCheck hbefore' (hbal ▸ hpre)
  obtain ⟨-, post', hpost, hfits, hcap⟩ := (postCheck_ok hdata).mp hafter
  obtain rfl := Option.some.inj hpost
  refine ⟨data', hbefore', (postCheck_ok hdata').mpr
    ⟨h.ne_zero, post, rfl, hbal ▸ hfits, fun hhas hlt => ?_⟩⟩
  rw [hbal] at hlt ⊢
  cases hlast : (caps (s'.registry.rules (s'.hook.constitutionOf m.sender))).getLast? with
  | none =>
    have hnone := preCheck_last hbefore'
    rw [hlast] at hnone
    cases hhas.symm.trans (Prod.mk.inj hnone).2
  | some last =>
    rw [(preCheck_maxTradeSize hbefore' hlast).1]
    obtain hmem | hold := last_added h hlast
    · obtain ⟨r', hr', hkind, hmax⟩ := mem_caps.mp hmem
      obtain rfl := List.mem_singleton.mp hr'
      exact houtflow hkind last hmax
    · obtain ⟨hmax, hrule⟩ := preCheck_maxTradeSize hbefore hold
      exact hmax ▸ hcap hrule hlt

end Modules

section Protocol

variable {kind : Kind} {data : Bytes}

theorem slice_eq_iff {mark : Bytes} : slice data 0 mark.length = mark ↔ mark <+: data := by
  rw [slice, List.drop_zero, List.prefix_iff_eq_take, eq_comm]

theorem declines_of_selector {selector : Bytes} (hlen : selector.length = 4)
    (hmark : ¬ selector <+: data) (hshort : data.length < 4 → kind.Declines data)
    (hother : 4 ≤ data.length → slice data 0 4 ≠ selector → kind.Declines data) :
    kind.Declines data := by
  by_cases h : data.length < 4
  · exact hshort h
  · refine hother (not_lt.mp h) fun heq => hmark ?_
    rw [← hlen] at heq
    exact slice_eq_iff.mp heq

theorem gmxV2_declines (hmark : ¬ GmxV2.createOrderSelector <+: data) :
    Kind.gmxV2.Declines data := by
  refine declines_of_selector rfl hmark (fun hshort => ?_) fun hlen hne => ?_
  · exact ⟨_, by rw [Kind.decode, GmxV2.decode, revertIf_pos hshort, error_bind]⟩
  · refine ⟨slice data 0 4, ?_⟩
    rw [Kind.decode, GmxV2.decode, revertIf_neg (not_lt.mpr hlen), ok_bind]
    simp only [revertIf_pos hne, error_bind]

theorem permit2_declines (hmark : ¬ Permit2.permitTransferFromSelector <+: data) :
    Kind.permit2.Declines data := by
  refine declines_of_selector rfl hmark (fun hshort => ?_) fun hlen hne => ?_
  · exact ⟨_, by rw [Kind.decode, Permit2.decode, revertIf_pos hshort, error_bind]⟩
  · refine ⟨slice data 0 4, ?_⟩
    rw [Kind.decode, Permit2.decode, revertIf_neg (not_lt.mpr hlen), ok_bind]
    simp only [revertIf_pos hne, error_bind]

theorem drift_declines (hmark : ¬ Drift.discriminatorFull <+: data) :
    Kind.drift.Declines data ↔ Drift.minLen ≤ data.length := by
  constructor
  · rintro ⟨selector, h⟩
    by_contra hshort
    rw [Kind.decode, Drift.decode, revertIf_pos (not_le.mp hshort), error_bind] at h
    cases h
  · intro hlen
    have hne : slice data 0 8 ≠ Drift.discriminatorFull := fun heq => hmark (slice_eq_iff.mp heq)
    refine ⟨(slice data 0 8).take 4, ?_⟩
    rw [Kind.decode, Drift.decode, revertIf_neg (not_lt.mpr hlen), ok_bind]
    simp only [revertIf_pos hne, error_bind]

theorem declines_iff (hmark : ¬ kind.mark <+: data) :
    kind.Declines data ↔ (kind = .drift → Drift.minLen ≤ data.length) := by
  cases kind with
  | drift => simpa using drift_declines hmark
  | gmxV2 => exact iff_of_true (gmxV2_declines hmark) nofun
  | permit2 => exact iff_of_true (permit2_declines hmark) nofun

theorem harmless (h : kind.Declines data) : Harmless kind data where
  validator _ _ _ _ _ _ _ _ hadded hentry huses hread hdata hinline :=
    validator_added hadded hentry hread
      (validator_enforce_declined huses (hdata ▸ h) hinline)
  hook _ _ _ _ _ _ _ _ _ hadded huses hread hdata hpre hinline houtflow :=
    hook_added hadded hread hpre (enforce_declined huses (hdata ▸ h) hinline) houtflow
  executor _ _ _ _ _ _ _ _ hadded huses hdata hinline :=
    executor_added hadded (enforce_declined huses (hdata ▸ h) hinline)

end Protocol

/-- Of calldata that an adapter does not recognise, it reverts with NotApplicable, and its rules
reject no call, if and only if it does not ask for the length first, or the length is there. -/
theorem declined_iff {kind : Kind} {data : Bytes} (hmark : ¬ kind.mark <+: data) :
    (kind.Declines data ∧ Harmless kind data) ↔
      (kind = .drift → Drift.minLen ≤ data.length) := by
  rw [← declines_iff hmark]
  exact ⟨And.left, fun h => ⟨h, harmless h⟩⟩

namespace Declined.Demo

/-- No more than ten times the collateral, as the Drift adapter sees it. -/
def rule : Rule := ⟨0, word 100000, 0xd⟩

/-- The hash of the constitution with that rule; what else is hashed is the same. -/
def keccak256 (b : Bytes) : Bytes32 :=
  if b = word 32 ++ array ([rule].map Rule.encode) then
    0x4a2307025901049f5e33f46aef5282d9148e9b5c4f14f72f3639452c65902f8c
  else 1

def adapters : Adapters := fun a data =>
  if a = 0xd then answer (Kind.drift.decode data) else .invalid

/-- The account has the constitution in the three modules. -/
def state : State := installed keccak256 [rule] 0xacc

/-- A message of the account. -/
def self : Msg := .of 0xacc 0

/-- It sends value, with no calldata. -/
def call : Execution := ⟨0x1, 5, []⟩

theorem uses : rule.Uses adapters .drift := ⟨by decide, fun _ => rfl⟩

theorem inline : rule.Inline call where
  maxTradeSize h := absurd h (by decide)
  venueBlacklist h := absurd h (by decide)
  unauditedContracts h := absurd h (by decide)

/-- The adapter reverts with Malformed, and the validator rejects a plain transfer. -/
theorem transfer_rejected : ¬ Kind.drift.mark <+: call.callData ∧
    ¬ Kind.drift.Declines call.callData ∧
    ∃ tr, Run (Step keccak256) .initial tr state ∧ rule.Uses adapters .drift ∧
      rule.Inline call ∧
      Validator.validateUserOp adapters state.registry state.validator self 0xacc
        (executeData call) = .error (.custom (.raised [0x07, 0xb6, 0xad, 0x3f])) := by
  have hmark : ¬ Kind.drift.mark <+: call.callData := by decide
  have haccepted : Accepted [rule] := ⟨by decide, by simp [Rule.Adapted, uses.adapter_ne]⟩
  obtain ⟨tr, h⟩ := run_installed keccak256 haccepted self
  refine ⟨hmark, ?_, tr, h, uses, inline, by decide +kernel⟩
  rw [drift_declines hmark]
  decide

/-- The calldata of an ERC-20 transfer. -/
def transfer : Bytes := transferSelector ++ (addressWord 0x2 ++ word 5)

/-- The GMX adapter lets the plain transfer pass, and every adapter an ERC-20 transfer. -/
theorem gmxV2_passes : (Kind.gmxV2.Declines call.callData ∧ Harmless .gmxV2 call.callData) ∧
    ∀ kind : Kind, kind.Declines transfer ∧ Harmless kind transfer := by
  refine ⟨(declined_iff (by decide)).mpr nofun, fun kind => (declined_iff ?_).mpr fun _ => ?_⟩
  · cases kind <;> decide
  · decide

end Declined.Demo

end Constitution
end Arcane
