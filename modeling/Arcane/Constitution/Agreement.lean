import Arcane.Constitution.Adapters
import Arcane.Constitution.Suite

/-!
# The three modules agree

* `decodeOuter_executeData`, `decodeOuter_fromExecutorData`: the hook reads from both layouts the
  call that they carry.
* `validator_enforce`, `hook_enforce`: the three evaluators agree on a rule that has its adapter.
* `modules_agree`: the validator, the executor and, on both layouts, the hook accept the same calls.
-/

namespace Arcane
namespace Constitution

open Text Evm Abi Trace

/-- The calldata of `execute(target, value, data)`. -/
def executeData (c : Execution) : Bytes :=
  executeSelector ++ (addressWord c.target ++ (word c.value ++ (word (32 * 3) ++ bytes c.callData)))

section Layouts

variable {c : Execution} {mode : Bytes32} {execData : Bytes}

theorem decoded_ok {α : Type} {x : Option α} {a : α} : decoded x = .ok a ↔ x = some a := by
  cases x <;> simp [decoded]

theorem decodeExecution_executeData (hvalue : c.value < 2 ^ 256)
    (hlen : c.callData.length < 2 ^ 64) : decodeExecution ((executeData c).drop 4) = some c := by
  have hbody : (executeData c).drop 4 =
      addressWord c.target ++ (word c.value ++ (word (32 * 3) ++ bytes c.callData)) :=
    List.drop_left' rfl
  have htarget : addressAt ((executeData c).drop 4) 0 = some c.target := by
    rw [hbody, addressAt_addressWord]
  have hword : wordAt ((executeData c).drop 4) 32 = some c.value := by
    simp [hbody, wordAt_append, wordAt_word hvalue]
  have hoffset : sizeAt ((executeData c).drop 4) 64 = some 96 := by
    simp [hbody, sizeAt_append, sizeAt_word]
  have hbytes : bytesAt ((executeData c).drop 4) 96 = some c.callData := by
    simp [hbody, bytesAt_append, bytesAt_bytes_end hlen]
  simp [decodeExecution, htarget, hword, hoffset, hbytes]

theorem decodeFromExecutor_fromExecutorData (hlen : execData.length < 2 ^ 64) :
    Hook.decodeFromExecutor ((Executor.fromExecutorData mode execData).drop 4) =
      some (mode, execData) := by
  have hbody : (Executor.fromExecutorData mode execData).drop 4 =
      bytes32 mode ++ (word (32 * 2) ++ bytes execData) := List.drop_left' rfl
  have hmode : bytes32At ((Executor.fromExecutorData mode execData).drop 4) 0 = some mode := by
    rw [hbody, bytes32At_bytes32]
  have hoffset : sizeAt ((Executor.fromExecutorData mode execData).drop 4) 32 = some 64 := by
    simp [hbody, sizeAt_append, sizeAt_word]
  have hbytes : bytesAt ((Executor.fromExecutorData mode execData).drop 4) 64 = some execData := by
    simp [hbody, bytesAt_append, bytesAt_bytes_end hlen]
  simp [Hook.decodeFromExecutor, hmode, hoffset, hbytes]

/-- The packed call is read back, whatever its calldata. -/
theorem unpack_pack (hvalue : c.value < 2 ^ 256) : Hook.unpack (Executor.pack c) = c := by
  obtain ⟨target, value, callData⟩ := c
  have htarget : slice (Executor.pack ⟨target, value, callData⟩) 0 20 = packedAddress target :=
    slice_left (length_packedAddress target)
  have hword : slice (Executor.pack ⟨target, value, callData⟩) 20 32 = word value := by
    rw [Executor.pack, slice_append (by simp), length_packedAddress]
    exact slice_left (length_word value)
  have hdata : (Executor.pack ⟨target, value, callData⟩).drop 52 = callData := by
    rw [Executor.pack, ← List.append_assoc]
    exact List.drop_left' (by simp)
  have hnumber : ofBytes (word value) = value :=
    ofBytes_toBytes (lt_of_lt_of_eq hvalue (by decide))
  simp only [Hook.unpack, htarget, hword, hdata, ofBytes_packedAddress, hnumber,
    BitVec.ofNat_toNat, BitVec.setWidth_eq]

theorem length_pack : (Executor.pack c).length = 52 + c.callData.length := by
  simp only [Executor.pack, List.length_append, length_packedAddress, length_word]
  omega

theorem length_executeData : 4 + 32 * 3 ≤ (executeData c).length := by
  simp only [executeData, executeSelector, List.length_append, List.length_cons, List.length_nil,
    length_addressWord, length_word]
  omega

theorem length_fromExecutorData (mode : Bytes32) (hlen : 52 ≤ execData.length) :
    4 + 32 * 4 ≤ (Executor.fromExecutorData mode execData).length := by
  simp only [Executor.fromExecutorData, executeFromExecutorSelector, bytes, List.length_append,
    List.length_cons, List.length_nil, length_bytes32, length_word]
  omega

theorem slice_executeData : slice (executeData c) 0 4 = executeSelector := slice_left rfl

theorem slice_fromExecutorData :
    slice (Executor.fromExecutorData mode execData) 0 4 = executeFromExecutorSelector :=
  slice_left rfl

/-- The hook reads the call of an `execute`. -/
theorem decodeOuter_executeData (hvalue : c.value < 2 ^ 256) (hlen : c.callData.length < 2 ^ 64) :
    Hook.decodeOuter (executeData c) executeSelector = .ok c := by
  have hlong := length_executeData (c := c)
  simp only [Hook.decodeOuter, if_true, bind_ok, revertIf_ok, decoded_ok]
  exact ⟨(), not_lt.mpr hlong, decodeExecution_executeData hvalue hlen⟩

/-- So does the validator. -/
theorem decodeCall_executeData (hvalue : c.value < 2 ^ 256) (hlen : c.callData.length < 2 ^ 64) :
    Validator.decodeCall (executeData c) = .ok c := by
  have hlong := length_executeData (c := c)
  simp only [Validator.decodeCall, bind_ok, revertIf_ok, decoded_ok, slice_executeData]
  exact ⟨(), by omega, (), not_not.mpr rfl, (), not_lt.mpr hlong,
    decodeExecution_executeData hvalue hlen⟩

/-- Whatever the mode, the hook reads a packed call from the message of an executor. -/
theorem decodeOuter_fromExecutorData (hlen : 52 ≤ execData.length)
    (hfits : execData.length < 2 ^ 64) :
    Hook.decodeOuter (Executor.fromExecutorData mode execData) executeFromExecutorSelector =
      .ok (Hook.unpack execData) := by
  have hlong := length_fromExecutorData mode hlen
  have hne : executeFromExecutorSelector ≠ executeSelector := by decide
  simp only [Hook.decodeOuter, if_neg hne, if_true, bind_ok, revertIf_ok, decoded_ok,
    decodeFromExecutor_fromExecutorData hfits, Option.some.injEq, pure_ok]
  exact ⟨(), not_lt.mpr hlong, _, rfl, (), not_lt.mpr hlen, rfl⟩

end Layouts

section Rules

variable {adapters : Adapters} {c : Execution} {r : Rule} {rules : List Rule}

theorem reason_maxTradeSize :
    Validator.reason "MAX_TRADE_SIZE" = "ConstitutionViolation:MAX_TRADE_SIZE" := by decide

theorem validator_checkMaxTradeSize {value : ℕ} {innerData : Bytes} :
    Validator.checkMaxTradeSize adapters r value innerData =
      Executor.checkMaxTradeSize adapters r value innerData := by
  simp only [Validator.checkMaxTradeSize, Executor.checkMaxTradeSize, Validator.checkTransfer,
    Executor.checkTransfer, reason_maxTradeSize, Validator.selector, Validator.decodeUint256At]
  rfl

/-- The validator and the executor agree on a rule that has its adapter. -/
theorem validator_enforce (h : r.Adapted) :
    Validator.enforce adapters r c = Executor.enforce adapters r c := by
  have hadapter {kind : UInt8} (hne : r.adapter ≠ 0) :
      (revertIf (r.adapter = 0) (Error.missingRequiredAdapter kind) : Tx Error Unit) = .ok () :=
    revertIf_neg hne
  by_cases h₀ : r.kind = 0
  · have hne := h (.inl h₀)
    simp only [Validator.enforce, Executor.enforce, h₀, if_true, Validator.checkMaxLeverage,
      hadapter hne, ok_bind, if_neg hne]
    rfl
  · by_cases h₄ : r.kind = 4
    · have hne := h (.inr h₄)
      simp only [Validator.enforce, Executor.enforce, h₄, if_true,
        Validator.checkSubdelegationBound, hadapter hne, ok_bind, if_neg hne]
      rfl
    · simp only [Validator.enforce, Executor.enforce, if_neg h₀, if_neg h₄,
        validator_checkMaxTradeSize]
      rfl

/-- A check that is followed by a result. -/
theorem check_ok {α : Type} {check : Tx Error Unit} {a : α} :
    (∃ b, (do check; return a : Tx Error α) = .ok b) ↔ check = .ok () := by
  simp only [bind_ok, pure_ok]
  constructor
  · rintro ⟨_, ⟨⟩, h, -⟩
    exact h
  · intro h
    exact ⟨a, (), h, rfl⟩

/-- The hook decodes the parameter before the check that it shares with the executor. -/
theorem hook_enforceMaxTradeSize :
    (∃ acc', (do
        let maxTradeSize ← decoded (decodeUint r.params)
        Hook.enforceMaxTradeSize adapters r c.value c.callData maxTradeSize
        return (maxTradeSize, true) : Tx Error (ℕ × Bool)) = .ok acc') ↔
      Executor.checkMaxTradeSize adapters r c.value c.callData = .ok () := by
  have hsame (max : ℕ) : Hook.enforceMaxTradeSize adapters r c.value c.callData max = (do
      require (c.value ≤ max) "ConstitutionViolation:MAX_TRADE_SIZE"
      checkAdapterSize (Executor.tryDecode adapters) r c.callData max
      Executor.checkTransfer c.callData max) := rfl
  cases hmax : decodeUint r.params with
  | none => simp [Executor.checkMaxTradeSize, hmax, decoded, error_bind]
  | some max =>
    simp only [Executor.checkMaxTradeSize, hmax, decoded, ok_bind, ← hsame]
    exact check_ok

/-- The hook and the executor accept the same calls. -/
theorem hook_enforce (acc : ℕ × Bool) :
    (∃ acc', Hook.enforce adapters c acc r = .ok acc') ↔
      Executor.enforce adapters r c = .ok () := by
  have hpure : ∃ acc', (pure acc : Tx Error (ℕ × Bool)) = .ok acc' := ⟨acc, rfl⟩
  unfold Hook.enforce Executor.enforce
  split
  · exact hook_enforceMaxTradeSize
  · split
    · exact check_ok
    · split
      · exact check_ok
      · split
        · split
          · exact iff_of_true hpure rfl
          · exact check_ok
        · split
          · split
            · exact iff_of_true hpure rfl
            · exact check_ok
          · exact iff_of_true hpure rfl

theorem hook_rules (acc : ℕ × Bool) :
    (∃ acc', rules.foldlM (Hook.enforce adapters c) acc = .ok acc') ↔
      ∀ r ∈ rules, Executor.enforce adapters r c = .ok () := by
  induction rules generalizing acc with
  | nil => simp
  | cons r rules ih =>
    rw [List.foldlM_cons, List.forall_mem_cons, ← hook_enforce acc]
    constructor
    · rintro ⟨acc'', h⟩
      obtain ⟨acc', hr, hrules⟩ := bind_ok.mp h
      exact ⟨⟨acc', hr⟩, (ih acc').mp ⟨acc'', hrules⟩⟩
    · rintro ⟨⟨acc', hr⟩, hrules⟩
      obtain ⟨acc'', h⟩ := (ih acc').mpr hrules
      exact ⟨acc'', bind_ok.mpr ⟨acc', hr, h⟩⟩

end Rules

section Modules

variable {keccak256 : Bytes → Bytes32} {adapters : Adapters} {balanceOf : Address → Option ℕ}
  {s : State} {tr : List (Trace.Step State Event)} {m : Msg} {account : Address} {hash : Bytes32}
  {c : Execution} {msgData : Bytes}

/-- Every rule of the constitution allows the call, as the executor checks it. -/
def Allowed (adapters : Adapters) (registry : Registry.State) (hash : Bytes32) (c : Execution) :
    Prop :=
  ∀ r ∈ registry.rules hash, Executor.enforce adapters r c = .ok ()

omit s m in
theorem balance_ok {bal : ℕ} : Hook.balance balanceOf account = .ok bal ↔
    balanceOf account = some bal := by
  unfold Hook.balance
  split <;> simp_all

/-- The messages that the hook accepts, and what it hands on. -/
theorem preCheck_eq_ok {data : Hook.HookData} :
    Hook.preCheck adapters balanceOf s.registry s.hook m msgData = .ok data ↔
      s.hook.constitutionOf m.sender ≠ 0 ∧ 4 ≤ msgData.length ∧
      (slice msgData 0 4 = executeSelector ∨ slice msgData 0 4 = executeFromExecutorSelector) ∧
      s.registry.exist (s.hook.constitutionOf m.sender) = true ∧
      ∃ c, Hook.decodeOuter msgData (slice msgData 0 4) = .ok c ∧
        (s.registry.rules (s.hook.constitutionOf m.sender)).foldlM (Hook.enforce adapters c)
          (0, false) = .ok (data.maxTradeSize, data.hasMaxTradeSizeRule) ∧
        balanceOf m.sender = some data.preBalance := by
  simp only [Hook.preCheck, bind_ok, revertIf_ok, external_ok, getConstitution_ok, pure_ok,
    balance_ok]
  constructor
  · rintro ⟨-, hne, -, hlen, -, hsel, rules, ⟨hexist, rfl⟩, c, hc, acc, hrules, bal, hbal, rfl⟩
    exact ⟨hne, not_lt.mp hlen, by tauto, hexist, c, hc, hrules, hbal⟩
  · rintro ⟨hne, hlen, hsel, hexist, c, hc, hrules, hbal⟩
    exact ⟨(), hne, (), not_lt.mpr hlen, (), by tauto, _, ⟨hexist, rfl⟩, c, hc, _, hrules, _, hbal,
      rfl⟩

/-- The hook accepts a message that it reads as an allowed call. -/
theorem preCheck_ok (h : s.hook.constitutionOf m.sender = hash) (hne : hash ≠ 0)
    (hexist : s.registry.exist hash = true) (hlen : 4 ≤ msgData.length)
    (hsel : slice msgData 0 4 = executeSelector ∨ slice msgData 0 4 = executeFromExecutorSelector)
    (hread : Hook.decodeOuter msgData (slice msgData 0 4) = .ok c)
    (hbalance : (balanceOf m.sender).isSome) :
    (∃ data, Hook.preCheck adapters balanceOf s.registry s.hook m msgData = .ok data) ↔
      Allowed adapters s.registry hash c := by
  obtain ⟨bal, hbal⟩ := Option.isSome_iff_exists.mp hbalance
  rw [Allowed, ← hook_rules (0, false)]
  subst h
  constructor
  · rintro ⟨data, hdata⟩
    obtain ⟨-, -, -, -, c', hc', hrules, -⟩ := preCheck_eq_ok.mp hdata
    obtain rfl := Except.ok.inj (hread.symm.trans hc')
    exact ⟨_, hrules⟩
  · rintro ⟨acc, hrules⟩
    exact ⟨⟨acc.1, bal, acc.2⟩,
      preCheck_eq_ok.mpr ⟨hne, hlen, hsel, hexist, c, hread, hrules, hbal⟩⟩

/-- The validator accepts an allowed call. -/
theorem validateUserOp_ok (h : s.validator.constitutionOf account = hash) (hne : hash ≠ 0)
    (hsound : Sound keccak256 s.registry) (hexist : s.registry.exist hash = true)
    (hsender : m.sender = s.validator.entryPointOf account ∨ m.sender = account)
    (hread : Validator.decodeCall msgData = .ok c) :
    Validator.validateUserOp adapters s.registry s.validator m account msgData = .ok () ↔
      Allowed adapters s.registry hash c := by
  subst h
  have henforce : ∀ r ∈ s.registry.rules (s.validator.constitutionOf account),
      Validator.enforce adapters r c = Executor.enforce adapters r c := fun r hr =>
    validator_enforce ((hsound.accepted _ hexist).adapted r hr)
  simp only [Validator.validateUserOp, bind_ok, revertIf_ok, require_ok, external_ok,
    getConstitution_ok, hread, Except.ok.injEq, forM_ok, Allowed]
  constructor
  · rintro ⟨-, -, -, -, rules, ⟨-, rfl⟩, c, rfl, hrules⟩ r hr
    rw [← henforce r hr]
    exact hrules r hr
  · intro hrules
    refine ⟨(), hne, (), hsender, _, ⟨hexist, rfl⟩, c, rfl, fun r hr => ?_⟩
    rw [henforce r hr]
    exact hrules r hr

/-- The executor sends an allowed call on. -/
theorem execute_ok (h : s.executor.constitutionOf account = hash) (hne : hash ≠ 0)
    (hexist : s.registry.exist hash = true) (hsender : m.sender = account) {sent : Bytes} :
    Executor.execute adapters s.registry s.executor m account c = .ok sent ↔
      Allowed adapters s.registry hash c ∧
        Executor.fromExecutorData Executor.singleCallMode (Executor.pack c) = sent := by
  subst h
  simp only [Executor.execute, bind_ok, revertIf_ok, external_ok, getConstitution_ok, forM_ok,
    pure_ok, Allowed]
  constructor
  · rintro ⟨-, -, -, -, rules, ⟨-, rfl⟩, -, hrules, hsent⟩
    exact ⟨hrules, hsent⟩
  · rintro ⟨hrules, hsent⟩
    exact ⟨(), hne, (), not_not.mpr hsender, _, ⟨hexist, rfl⟩, (), hrules, hsent⟩

/-- The message that the executor sends for the call `c`. -/
def message (c : Execution) : Bytes :=
  Executor.fromExecutorData Executor.singleCallMode (Executor.pack c)

theorem length_callData_le : (Executor.pack c).length ≤ (message c).length := by
  simp only [message, Executor.fromExecutorData, bytes, List.length_append]
  omega

/-- A call to which the rules of an installed constitution are put is accepted by the validator, by
the hook and by the executor, and by the hook again in the message of the executor, or else by none
of them; and the hook reads from that message the call itself. -/
theorem modules_agree (h : Run (Step keccak256) .initial tr s) (hs : Installed s account hash)
    {userOp : Msg} (hsender : userOp.sender = s.validator.entryPointOf account ∨
      userOp.sender = account) (hm : m.sender = account) {balanceOf' : Address → Option ℕ}
    (hbalance : (balanceOf account).isSome) (hbalance' : (balanceOf' account).isSome)
    (hvalue : c.value < 2 ^ 256) (hfits : (message c).length < 2 ^ 64) :
    (Validator.validateUserOp adapters s.registry s.validator userOp account (executeData c) =
      .ok () ↔ Allowed adapters s.registry hash c) ∧
    ((∃ data, Hook.preCheck adapters balanceOf s.registry s.hook m (executeData c) = .ok data) ↔
      Allowed adapters s.registry hash c) ∧
    (∀ sent, Executor.execute adapters s.registry s.executor m account c = .ok sent ↔
      Allowed adapters s.registry hash c ∧ message c = sent) ∧
    ((∃ data, Hook.preCheck adapters balanceOf' s.registry s.hook m (message c) = .ok data) ↔
      Allowed adapters s.registry hash c) ∧
    Hook.decodeOuter (message c) executeFromExecutorSelector = .ok c := by
  subst hm
  have hwf := wellFormed h
  have hexist := hs.exist hwf
  have hpack : (Executor.pack c).length < 2 ^ 64 := length_callData_le.trans_lt hfits
  have hpacked := length_pack (c := c)
  have hlen : c.callData.length < 2 ^ 64 := by omega
  have hread : Hook.decodeOuter (message c) executeFromExecutorSelector = .ok c := by
    rw [message, decodeOuter_fromExecutorData (by omega) hpack, unpack_pack hvalue]
  have hlong := length_executeData (c := c)
  have hlong' : 4 + 32 * 4 ≤ (message c).length := length_fromExecutorData _ (by omega)
  have hsel : slice (message c) 0 4 = executeFromExecutorSelector := slice_fromExecutorData
  refine ⟨?_, ?_, fun sent => ?_, ?_, hread⟩
  · exact validateUserOp_ok hs.validator hs.ne_zero hwf.sound hexist hsender
      (decodeCall_executeData hvalue hlen)
  · refine preCheck_ok hs.hook hs.ne_zero hexist (by omega) (.inl slice_executeData) ?_ hbalance
    rw [slice_executeData]
    exact decodeOuter_executeData hvalue hlen
  · exact execute_ok hs.executor hs.ne_zero hexist rfl
  · refine preCheck_ok hs.hook hs.ne_zero hexist (by omega) (.inr hsel) ?_ hbalance'
    rw [hsel]
    exact hread

end Modules

namespace Demo

/-- At most ten times the collateral of a Drift order, trades of up to 100 USDC, one banned venue,
and up to 50 USDC to be permitted. -/
def rules : List Rule :=
  [⟨0, word 100000, 0xd⟩, ⟨1, word 100000000, 0⟩, ⟨2, word 32 ++ (word 1 ++ addressWord 0xbad), 0⟩,
    ⟨4, word 50000000, 0xe⟩]

/-- The adapters of Drift and Permit2. -/
def adapters : Adapters := fun a data =>
  if a = 0xd then Adapter.answer (Adapter.Kind.drift.decode data)
  else if a = 0xe then Adapter.answer (Adapter.Kind.permit2.decode data)
  else .invalid

def balanceOf : Address → Option ℕ := fun _ => some 100

/-- The account has the constitution in the three modules. -/
def state : State := installed Registry.keccak rules 0xacc

def hash : Bytes32 := Registry.hashOf Registry.keccak rules

theorem hash_ne_zero : hash ≠ 0 := by
  decide +kernel

theorem accepted : Accepted rules where
  ne_nil := by decide
  adapted := by
    simp [rules, Rule.Adapted]
    decide

/-- A message of the account. -/
def self : Msg := .of 0xacc 0

/-- It transfers so many units of a token. -/
def call (amount : ℕ) : Execution := ⟨0x1, 0, transferSelector ++ (addressWord 0x2 ++ word amount)⟩

theorem allowed_iff {c : Execution} :
    Allowed adapters state.registry hash c ↔
      ∀ r ∈ rules, Executor.enforce adapters r c = .ok () := by
  rw [Allowed, state, hash, installed, rules_holding]

/-- A transfer of 70 USDC passes everywhere, one of 101 USDC nowhere. -/
theorem modules_accept : ∃ tr, Run (Step Registry.keccak) .initial tr state ∧
    Validator.validateUserOp adapters state.registry state.validator self 0xacc
      (executeData (call 70000000)) = .ok () ∧
    (∃ data, Hook.preCheck adapters balanceOf state.registry state.hook self
      (executeData (call 70000000)) = .ok data) ∧
    Executor.execute adapters state.registry state.executor self 0xacc (call 70000000) =
      .ok (message (call 70000000)) ∧
    (∃ data, Hook.preCheck adapters balanceOf state.registry state.hook self
      (message (call 70000000)) = .ok data) ∧
    (Validator.validateUserOp adapters state.registry state.validator self 0xacc
      (executeData (call 101000000)) ≠ .ok ()) ∧
    ¬ ∃ data, Hook.preCheck adapters balanceOf state.registry state.hook self
      (message (call 101000000)) = .ok data := by
  obtain ⟨tr, h⟩ := run_installed _ accepted self
  have hallowed : Allowed adapters state.registry hash (call 70000000) :=
    allowed_iff.mpr (by decide +kernel)
  have hrefused : ¬ Allowed adapters state.registry hash (call 101000000) :=
    mt allowed_iff.mp (by decide +kernel)
  have hbalance : (balanceOf 0xacc).isSome := rfl
  have hinstalled : Installed state 0xacc hash := installed_installed hash_ne_zero
  obtain ⟨hvalidator, hhook, hexecutor, hmessage, -⟩ :=
    modules_agree h hinstalled (.inr (rfl : self.sender = 0xacc)) (rfl : self.sender = 0xacc)
      hbalance hbalance (by decide : (call 70000000).value < 2 ^ 256) (by decide +kernel)
  obtain ⟨hvalidator', -, -, hmessage', -⟩ :=
    modules_agree h hinstalled (.inr (rfl : self.sender = 0xacc)) (rfl : self.sender = 0xacc)
      hbalance hbalance (by decide : (call 101000000).value < 2 ^ 256) (by decide +kernel)
  exact ⟨tr, h, hvalidator.mpr hallowed, hhook.mpr hallowed,
    (hexecutor _).mpr ⟨hallowed, rfl⟩, hmessage.mpr hallowed, mt hvalidator'.mp hrefused,
    mt hmessage'.mp hrefused⟩

end Demo

end Constitution
end Arcane
