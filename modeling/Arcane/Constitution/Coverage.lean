import Arcane.Constitution.Agreement

/-!
# What the hook covers

The calls that a message `executeFromExecutor(mode, executionCalldata)` denotes under ERC-7579, and
the one that the hook reads from it, whatever its mode.

* `not_violated`: what passes a rule does not violate it.
* `covers_iff`: the hook covers the modes that call for neither a batch nor a delegatecall.
-/

namespace Arcane
namespace Constitution

open Text Evm Abi Trace

namespace Erc7579

/-- The first byte of a mode. -/
def callType (mode : Bytes32) : BitVec 8 := mode.extractLsb' 248 8

/-- The address that stands packed in front. -/
def packedTarget (x : Bytes) : Address := ⟨BitVec.ofNat 160 (ofBytes (slice x 0 20))⟩

/-- Call type 0x00: one packed call. -/
def single (x : Bytes) : Option Execution :=
  if 52 ≤ x.length then some ⟨packedTarget x, ofBytes (slice x 20 32), x.drop 52⟩ else none

/-- The tuple at position `i`. -/
def executionAt (b : Bytes) (i : ℕ) : Option Execution := do
  let target ← addressAt b i
  let value ← wordAt b (i + 32)
  let callData ← (sizeAt b (i + 64)).bind fun o => bytesAt b (i + o)
  return ⟨target, value, callData⟩

/-- Call type 0x01: `abi.encode` of an array of calls. -/
def batch (x : Bytes) : Option (List Execution) :=
  (sizeAt x 0).bind <|
    arrayAt (fun base j => (sizeAt x j).bind fun o => executionAt x (base + o)) x

/-- Call type 0xff: a packed delegatecall, which has no value. -/
def delegate (x : Bytes) : Option Execution :=
  if 20 ≤ x.length then some ⟨packedTarget x, 0, x.drop 20⟩ else none

/-- The calls that the account makes; none if it cannot read them. -/
def executions (mode : Bytes32) (x : Bytes) : List Execution :=
  if callType mode = 0x00 then (single x).toList
  else if callType mode = 0x01 then (batch x).getD []
  else if callType mode = 0xff then (delegate x).toList
  else []

end Erc7579

open Erc7579

/-- Something in the call is larger than `max`: its value, the trade that the adapter sees in it, or
the transfer that it is. -/
inductive Oversized (adapters : Adapters) (adapter : Address) (max : ℕ) (c : Execution) : Prop
  | value (h : max < c.value)
  | trade (dec : Decoded) (hadapter : adapter ≠ 0)
      (hdec : adapters adapter c.callData = .decoded dec) (h : max < dec.sizeUsdc)
  | transfer (hlen : 68 ≤ c.callData.length) (hsel : slice c.callData 0 4 = transferSelector)
      (h : max < ofBytes (slice c.callData 36 32))

/-- The call violates a VENUE_BLACKLIST, NO_UNAUDITED_CONTRACTS or MAX_TRADE_SIZE rule. -/
inductive Rule.Violated (adapters : Adapters) (r : Rule) (c : Execution) : Prop
  | blacklisted (blacklist : List Address) (hkind : r.kind = 2)
      (hparams : decodeAddresses r.params = some blacklist) (h : c.target ∈ blacklist)
  | unaudited (whitelist : List Address) (hkind : r.kind = 3)
      (hparams : decodeAddresses r.params = some whitelist) (hne : whitelist ≠ [])
      (h : c.target ∉ whitelist)
  | oversized (max : ℕ) (hkind : r.kind = 1) (hparams : decodeUint r.params = some max)
      (h : Oversized adapters r.adapter max c)

/-- No call that an accepted message of this mode denotes violates a rule of the account. -/
def Covers (keccak256 : Bytes → Bytes32) (adapters : Adapters) (mode : Bytes32) : Prop :=
  ∀ tr s, Run (Step keccak256) .initial tr s → ∀ balanceOf m msgData execData data,
    slice msgData 0 4 = executeFromExecutorSelector →
    Hook.decodeFromExecutor (msgData.drop 4) = some (mode, execData) →
    Hook.preCheck adapters balanceOf s.registry s.hook m msgData = .ok data →
    ∀ c ∈ executions mode execData, ∀ r ∈ s.registry.rules (s.hook.constitutionOf m.sender),
      ¬ r.Violated adapters c

section Coverage

variable {keccak256 : Bytes → Bytes32} {adapters : Adapters} {mode : Bytes32} {x msgData : Bytes}
  {c : Execution} {r : Rule} {rules : List Rule} {max : ℕ}

theorem not_oversized (hvalue : c.value ≤ max)
    (hadapter : checkAdapterSize (Executor.tryDecode adapters) r c.callData max = .ok ())
    (htransfer : Executor.checkTransfer c.callData max = .ok ()) :
    ¬ Oversized adapters r.adapter max c := by
  rintro (h | ⟨dec, hne, hdec, h⟩ | ⟨hlen, hsel, h⟩)
  · omega
  · simp only [checkAdapterSize, if_neg hne, Executor.tryDecode, tryDecode, hdec, ok_bind,
      require_ok] at hadapter
    omega
  · simp only [Executor.checkTransfer, if_pos (And.intro hlen hsel), require_ok] at htransfer
    omega

/-- A call that passes a rule does not violate it. -/
theorem not_violated (h : Executor.enforce adapters r c = .ok ()) : ¬ r.Violated adapters c := by
  rintro (⟨blacklist, hkind, hparams, hmem⟩ | ⟨whitelist, hkind, hparams, hne, hmem⟩ |
    ⟨max, hkind, hparams, hsize⟩)
  · simp [Executor.enforce, hkind, Executor.checkVenueBlacklist, checkVenueBlacklist, hparams,
      decoded, ok_bind, require_ok, hmem] at h
  · simp [Executor.enforce, hkind, Executor.checkUnauditedContracts, checkUnauditedContracts,
      hparams, decoded, ok_bind, require_ok, hmem, hne] at h
  · simp only [Executor.enforce, hkind, if_true, Executor.checkMaxTradeSize, hparams, decoded,
      ok_bind, bind_ok, require_ok] at h
    obtain ⟨⟨⟩, hvalue, ⟨⟩, hadapter, htransfer⟩ := h
    exact not_oversized hvalue hadapter htransfer hsize

/-- The hook covers a mode under which a message denotes at most the call that it reads. -/
theorem covers (hbatch : callType mode ≠ 0x01) (hdelegate : callType mode ≠ 0xff) :
    Covers keccak256 adapters mode := by
  intro tr s _ balanceOf m msgData execData data hsel hmsg hpre c hc r hr
  obtain ⟨-, -, -, -, c', hread, hrules, -⟩ := preCheck_eq_ok.mp hpre
  have hne : executeFromExecutorSelector ≠ executeSelector := by decide
  have hc' : c = c' := by
    simp only [hsel, Hook.decodeOuter, if_neg hne, if_true, bind_ok, decoded_ok, revertIf_ok,
      pure_ok, hmsg, Option.some.injEq] at hread
    obtain ⟨-, -, _, rfl, -, -, rfl⟩ := hread
    simp only [executions, if_neg hbatch, if_neg hdelegate, single] at hc
    split at hc
    · split at hc
      · simpa [Hook.unpack, packedTarget] using hc
      · simp at hc
    · simp at hc
  subst hc'
  exact not_violated ((hook_rules (0, false)).mp ⟨_, hrules⟩ r hr)

/-- One accepted message with one call that breaks a rule. -/
theorem not_covers (hkeccak : ∀ b, keccak256 b ≠ 0) (hrules : Accepted rules)
    (hlen : 52 ≤ x.length) (hfits : x.length < 2 ^ 64)
    (hpass : ∀ r ∈ rules, Executor.enforce adapters r (Hook.unpack x) = .ok ())
    (hc : c ∈ executions mode x) (hr : r ∈ rules) (hviolated : r.Violated adapters c) :
    ¬ Covers keccak256 adapters mode := by
  intro hcovers
  let m : Msg := default
  obtain ⟨tr, h⟩ := run_installed keccak256 hrules m
  have hinstalled : Installed (installed keccak256 rules m.sender) m.sender
      (Registry.hashOf keccak256 rules) := installed_installed (hkeccak _)
  have hallowed : Allowed adapters (installed keccak256 rules m.sender).registry
      (Registry.hashOf keccak256 rules) (Hook.unpack x) := by
    rw [Allowed, installed, rules_holding]
    exact hpass
  have hsel : slice (Executor.fromExecutorData mode x) 0 4 = executeFromExecutorSelector :=
    slice_fromExecutorData
  have hlong := length_fromExecutorData mode hlen
  let balanceOf : Address → Option ℕ := fun _ => some 0
  have hbalance : (balanceOf m.sender).isSome := rfl
  obtain ⟨data, hdata⟩ := (preCheck_ok hinstalled.hook hinstalled.ne_zero exist_holding (by omega)
    (.inr hsel) (by rw [hsel, decodeOuter_fromExecutorData hlen hfits]) hbalance).mpr hallowed
  refine hcovers tr _ h _ m _ x data hsel (decodeFromExecutor_fromExecutorData hfits) hdata c hc r
    ?_ hviolated
  rw [hinstalled.hook, installed, rules_holding]
  exact hr

end Coverage

/-! ## The modes that are not covered -/

namespace Batch

/-- A constitution with one banned venue. -/
def rule : Rule := ⟨2, word 32 ++ (word 1 ++ addressWord 0xbad), 0⟩

/-- A batch of one call, of the banned venue. -/
def data : Bytes :=
  word 32 ++ array [addressWord 0xbad ++ (word 0 ++ (word (32 * 3) ++ bytes []))]

theorem batch_data : batch data = some [⟨0xbad, 0, []⟩] := by decide +kernel

theorem decodeAddresses_params : decodeAddresses rule.params = some [0xbad] := by decide

/-- The hook reads the offset of the array as the target. -/
theorem unpack_data : (Hook.unpack data).target = 0 := by decide

theorem enforce_data (adapters : Adapters) :
    Executor.enforce adapters rule (Hook.unpack data) = .ok () := by
  have hkind : rule.kind = 2 := rfl
  have hne : (0 : Address) ∉ [0xbad] := by decide
  simp [Executor.enforce, hkind, Executor.checkVenueBlacklist, checkVenueBlacklist,
    decodeAddresses_params, decoded, ok_bind, require_ok, unpack_data, hne]

theorem violated (adapters : Adapters) : rule.Violated adapters ⟨0xbad, 0, []⟩ :=
  .blacklisted _ rfl decodeAddresses_params (by decide)

end Batch

namespace Delegate

/-- A bound on the size of trades, of one less than the largest number. -/
def rule : Rule := ⟨1, word (2 ^ 256 - 2), 0⟩

/-- The transfer of a larger size. -/
def callData : Bytes := transferSelector ++ (word 0 ++ word (2 ^ 256 - 1))

def data : Bytes := packedAddress 0x1 ++ callData

theorem delegate_data : delegate data = some ⟨0x1, 0, callData⟩ := by decide

theorem decodeUint_params : decodeUint rule.params = some (2 ^ 256 - 2) := by decide

/-- The hook reads the front of the calldata as the value. -/
theorem enforce_data (adapters : Adapters) :
    Executor.enforce adapters rule (Hook.unpack data) = .ok () := by
  have hkind : rule.kind = 1 := rfl
  have hvalue : (Hook.unpack data).value ≤ 2 ^ 256 - 2 := by decide
  have hadapter : rule.adapter = 0 := rfl
  have htransfer : Executor.checkTransfer (Hook.unpack data).callData (2 ^ 256 - 2) = .ok () := by
    decide
  simp only [Executor.enforce, hkind, if_true, Executor.checkMaxTradeSize, decodeUint_params,
    decoded, ok_bind, bind_ok, require_ok, checkAdapterSize, if_pos hadapter, pure_ok]
  exact ⟨(), hvalue, (), trivial, htransfer⟩

theorem violated (adapters : Adapters) : rule.Violated adapters ⟨0x1, 0, callData⟩ :=
  .oversized _ rfl decodeUint_params (.transfer (by decide) (by decide) (by decide))

end Delegate

/-- The hook covers a mode if and only if its call type is neither that of a batch nor that of a
delegatecall. -/
theorem covers_iff {keccak256 : Bytes → Bytes32} {adapters : Adapters} {mode : Bytes32}
    (hkeccak : ∀ b, keccak256 b ≠ 0) :
    Covers keccak256 adapters mode ↔ callType mode ≠ 0x01 ∧ callType mode ≠ 0xff := by
  refine ⟨fun hcovers => ⟨fun hbatch => ?_, fun hdelegate => ?_⟩,
    fun ⟨hbatch, hdelegate⟩ => covers hbatch hdelegate⟩
  · have haccepted : Accepted [Batch.rule] := ⟨by decide, by simp [Rule.Adapted, Batch.rule]⟩
    have hc : ⟨0xbad, 0, []⟩ ∈ executions mode Batch.data := by
      simp [executions, hbatch, Batch.batch_data]
    have hpass : ∀ r ∈ [Batch.rule],
        Executor.enforce adapters r (Hook.unpack Batch.data) = .ok () := by
      simp [Batch.enforce_data]
    exact not_covers hkeccak haccepted (by decide +kernel) (by decide +kernel) hpass hc
      (List.mem_singleton_self _) (Batch.violated adapters) hcovers
  · have haccepted : Accepted [Delegate.rule] := ⟨by decide, by simp [Rule.Adapted, Delegate.rule]⟩
    have hc : ⟨0x1, 0, Delegate.callData⟩ ∈ executions mode Delegate.data := by
      simp [executions, hdelegate, Delegate.delegate_data]
    have hpass : ∀ r ∈ [Delegate.rule],
        Executor.enforce adapters r (Hook.unpack Delegate.data) = .ok () := by
      simp [Delegate.enforce_data]
    exact not_covers hkeccak haccepted (by decide) (by decide) hpass hc
      (List.mem_singleton_self _) (Delegate.violated adapters) hcovers

namespace Demo

/-- A hash that is never zero: that of the constitution with one banned venue, and 1 for all
else. -/
def hashing (b : Bytes) : Bytes32 :=
  if b = word 32 ++ array ([Batch.rule].map Rule.encode) then
    0x94f520cacecfaa55583da9c362b06a8b15b3fdd276198db45298549ae4a811fa
  else 1

theorem hashing_ne_zero (b : Bytes) : hashing b ≠ 0 := by
  unfold hashing
  split <;> decide

/-- Single calls are covered. -/
theorem single_covered : Covers hashing adapters 0 := (covers_iff hashing_ne_zero).mpr (by decide)

/-- The account has that constitution in the three modules. -/
def banning : State := installed hashing [Batch.rule] 0xacc

/-- The mode of a batch. -/
def batchMode : Bytes32 := 0x01 <<< 248

/-- The batch passes the hook of an account that bans its venue. -/
theorem batch_unchecked : ∃ tr, Run (Step hashing) .initial tr banning ∧
    (∃ data, Hook.preCheck adapters balanceOf banning.registry banning.hook self
      (Executor.fromExecutorData batchMode Batch.data) = .ok data) ∧
    executions batchMode Batch.data = [⟨0xbad, 0, []⟩] ∧
    ∃ r ∈ banning.registry.rules (banning.hook.constitutionOf self.sender),
      r.Violated adapters ⟨0xbad, 0, []⟩ := by
  have haccepted : Accepted [Batch.rule] := ⟨by decide, by simp [Rule.Adapted, Batch.rule]⟩
  obtain ⟨tr, h⟩ := run_installed hashing haccepted self
  have hinstalled : Installed banning 0xacc (Registry.hashOf hashing [Batch.rule]) :=
    installed_installed (hashing_ne_zero _)
  have hhook : banning.hook.constitutionOf self.sender = Registry.hashOf hashing [Batch.rule] :=
    hinstalled.hook
  have hrules : banning.registry.rules (Registry.hashOf hashing [Batch.rule]) = [Batch.rule] :=
    rules_holding
  have hallowed : Allowed adapters banning.registry (Registry.hashOf hashing [Batch.rule])
      (Hook.unpack Batch.data) := by
    rw [Allowed, hrules]
    exact List.forall_mem_singleton.mpr (Batch.enforce_data adapters)
  have hsel : slice (Executor.fromExecutorData batchMode Batch.data) 0 4 =
      executeFromExecutorSelector := slice_fromExecutorData
  have hread : Hook.decodeOuter (Executor.fromExecutorData batchMode Batch.data)
      executeFromExecutorSelector = .ok (Hook.unpack Batch.data) :=
    decodeOuter_fromExecutorData (by decide +kernel) (by decide +kernel)
  have hbalance : (balanceOf self.sender).isSome := rfl
  refine ⟨tr, h, ?_, by decide +kernel, Batch.rule, ?_, Batch.violated adapters⟩
  · exact (preCheck_ok hhook hinstalled.ne_zero exist_holding (by decide +kernel) (.inr hsel)
      (by rw [hsel, hread]) hbalance).mpr hallowed
  · rw [hhook, hrules]
    exact List.mem_singleton_self _

end Demo

end Constitution
end Arcane
