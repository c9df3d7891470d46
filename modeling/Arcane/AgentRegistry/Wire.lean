import Arcane.AgentRegistry.Feed
import Arcane.Lib.Keccak

/-!
# The ABI of the AgentRegistry contract

What goes over the wire: the calldata of a call (`decodeCall`), the answers of the views (`view`),
and the topics and the data of an event.

* `decodeCall_register`, `decodeCall_recordAction`: the contract reads the calls that `abi.encode`
  writes.
* `view_agentCount`, `view_getAgent`: what a client gets for the selectors of the views.
-/

namespace Arcane
namespace AgentRegistry

open Text Evm Abi

/-- The bytes of an ABI signature. -/
def signature (s : String) : Bytes := (utf8 (lit s)).getD []

/-- The first four bytes of the hash of a signature. -/
def selector (s : String) : Bytes := (keccak256 (signature s)).take 4

def registerSelector : Bytes := selector "register(uint256,bytes32,address,string)"

def recordActionSelector : Bytes := selector "recordAction(uint256,uint8,bytes)"

def deactivateSelector : Bytes := selector "deactivate(uint256)"

def agentCountSelector : Bytes := selector "agentCount()"

def getAgentSelector : Bytes := selector "getAgent(uint256)"

@[simp]
theorem length_selector (s : String) : (selector s).length = 4 := by
  rw [selector, List.length_take, length_keccak256]
  rfl

theorem selectors_eq : [registerSelector, recordActionSelector, deactivateSelector,
    agentCountSelector, getAgentSelector] = [[0xae, 0xf0, 0xec, 0xf1], [0x81, 0xb3, 0x12, 0x20],
      [0x91, 0x6b, 0x9b, 0xef], [0xb7, 0xdc, 0x12, 0x84], [0x2d, 0xe5, 0xaa, 0xf7]] := by
  decide +kernel

/-- No two functions have one selector. -/
theorem selectors_nodup : [registerSelector, recordActionSelector, deactivateSelector,
    agentCountSelector, getAgentSelector].Nodup := by
  rw [selectors_eq]
  decide

/-! ## Calls -/

/-- The `uint8` at position `i`. -/
def uint8At (b : Bytes) (i : ℕ) : Option UInt8 :=
  (wordAt b i).bind fun w => if w < 256 then some (.ofNat w) else none

def registerArguments (args : Bytes) : Option Call := do
  let identityId ← wordAt args 0
  let constitutionHash ← bytes32At args 32
  let bondVault ← addressAt args 64
  let offset ← sizeAt args 96
  let darkPoolUrl ← bytesAt args offset
  return .register identityId constitutionHash bondVault darkPoolUrl

def recordActionArguments (args : Bytes) : Option Call := do
  let agentId ← wordAt args 0
  let kind ← uint8At args 32
  let offset ← sizeAt args 64
  let payload ← bytesAt args offset
  return .recordAction agentId kind payload

/-- The call that the calldata of a transaction makes; `none` is a revert. -/
def decodeCall (data : Bytes) : Option Call :=
  if data.take 4 = registerSelector then registerArguments (data.drop 4)
  else if data.take 4 = recordActionSelector then recordActionArguments (data.drop 4)
  else if data.take 4 = deactivateSelector then (wordAt (data.drop 4) 0).map .deactivate
  else none

/-- `abi.encode` of the arguments of `register`. -/
def encodeRegister (identityId : ℕ) (constitutionHash : Bytes32) (bondVault : Address)
    (darkPoolUrl : Bytes) : Bytes :=
  word identityId ++ (bytes32 constitutionHash ++ (addressWord bondVault ++ (word 128 ++
    bytes darkPoolUrl)))

/-- `abi.encode` of the arguments of `recordAction`. -/
def encodeRecordAction (agentId kind : ℕ) (payload : Bytes) : Bytes :=
  word agentId ++ (word kind ++ (word 96 ++ bytes payload))

theorem uint8At_append {a b : Bytes} {i : ℕ} (h : a.length ≤ i) :
    uint8At (a ++ b) i = uint8At b (i - a.length) := by
  rw [uint8At, uint8At, wordAt_append h]

theorem uint8At_word {n : ℕ} {r : Bytes} (h : n < 256) :
    uint8At (word n ++ r) 0 = some (.ofNat n) := by
  rw [uint8At, wordAt_word (by omega), Option.bind_some, if_pos h]

/-- Calldata begins with its selector. -/
theorem take_selector (s : String) (args : Bytes) : (selector s ++ args).take 4 = selector s :=
  List.take_left' (length_selector s)

theorem drop_selector (s : String) (args : Bytes) : (selector s ++ args).drop 4 = args :=
  List.drop_left' (length_selector s)

theorem decodeCall_register {identityId : ℕ} {constitutionHash : Bytes32} {bondVault : Address}
    {darkPoolUrl : Bytes} (hid : identityId < 2 ^ 256) (hurl : darkPoolUrl.length < 2 ^ 64) :
    decodeCall (registerSelector ++
        encodeRegister identityId constitutionHash bondVault darkPoolUrl) =
      some (.register identityId constitutionHash bondVault darkPoolUrl) := by
  have htake := take_selector "register(uint256,bytes32,address,string)"
    (encodeRegister identityId constitutionHash bondVault darkPoolUrl)
  have hdrop := drop_selector "register(uint256,bytes32,address,string)"
    (encodeRegister identityId constitutionHash bondVault darkPoolUrl)
  have hid' : wordAt (encodeRegister identityId constitutionHash bondVault darkPoolUrl) 0 =
      some identityId := by
    rw [encodeRegister, wordAt_word hid]
  have hhash : bytes32At (encodeRegister identityId constitutionHash bondVault darkPoolUrl) 32 =
      some constitutionHash := by
    rw [encodeRegister, bytes32At_append (by simp), length_word, Nat.sub_self, bytes32At_bytes32]
  have hvault : addressAt (encodeRegister identityId constitutionHash bondVault darkPoolUrl) 64 =
      some bondVault := by
    rw [encodeRegister, addressAt_append (by simp), length_word, addressAt_append (by simp),
      length_bytes32, Nat.sub_self, addressAt_addressWord]
  have hoffset : sizeAt (encodeRegister identityId constitutionHash bondVault darkPoolUrl) 96 =
      some 128 := by
    rw [encodeRegister, sizeAt_append (by simp), length_word, sizeAt_append (by simp),
      length_bytes32, sizeAt_append (by simp), length_addressWord, Nat.sub_self,
      sizeAt_word (by decide)]
  have hbytes : bytesAt (encodeRegister identityId constitutionHash bondVault darkPoolUrl) 128 =
      some darkPoolUrl := by
    rw [encodeRegister, bytesAt_append (by simp), length_word, bytesAt_append (by simp),
      length_bytes32, bytesAt_append (by simp), length_addressWord, bytesAt_append (by simp),
      length_word, Nat.sub_self, bytesAt_bytes_end hurl]
  rw [decodeCall, registerSelector, htake, hdrop, if_pos rfl, registerArguments, hid', hhash,
    hvault, hoffset]
  simp only [Option.bind_eq_bind, Option.bind_some, hbytes, Option.pure_def]

theorem decodeCall_recordAction {agentId kind : ℕ} {payload : Bytes} (hid : agentId < 2 ^ 256)
    (hkind : kind < 256) (hlen : payload.length < 2 ^ 64) :
    decodeCall (recordActionSelector ++ encodeRecordAction agentId kind payload) =
      some (.recordAction agentId (.ofNat kind) payload) := by
  have htake := take_selector "recordAction(uint256,uint8,bytes)"
    (encodeRecordAction agentId kind payload)
  have hdrop := drop_selector "recordAction(uint256,uint8,bytes)"
    (encodeRecordAction agentId kind payload)
  have hne : recordActionSelector ≠ registerSelector := by
    have h := selectors_nodup
    simp only [List.nodup_cons, List.mem_cons, not_or] at h
    exact Ne.symm h.1.1
  have hid' : wordAt (encodeRecordAction agentId kind payload) 0 = some agentId := by
    rw [encodeRecordAction, wordAt_word hid]
  have hkind' : uint8At (encodeRecordAction agentId kind payload) 32 = some (.ofNat kind) := by
    rw [encodeRecordAction, uint8At_append (by simp), length_word, Nat.sub_self, uint8At_word hkind]
  have hoffset : sizeAt (encodeRecordAction agentId kind payload) 64 = some 96 := by
    rw [encodeRecordAction, sizeAt_append (by simp), length_word, sizeAt_append (by simp),
      length_word, Nat.sub_self, sizeAt_word (by decide)]
  have hbytes : bytesAt (encodeRecordAction agentId kind payload) 96 = some payload := by
    rw [encodeRecordAction, bytesAt_append (by simp), length_word, bytesAt_append (by simp),
      length_word, bytesAt_append (by simp), length_word, Nat.sub_self, bytesAt_bytes_end hlen]
  rw [recordActionSelector] at hne ⊢
  rw [decodeCall, htake, hdrop, if_neg hne, recordActionSelector, if_pos rfl, recordActionArguments,
    hid', hkind', hoffset]
  simp only [Option.bind_eq_bind, Option.bind_some, hbytes, Option.pure_def]

/-- What is read of `bytes` is not too long. -/
theorem length_bytesAt {b payload : Bytes} {i : ℕ} (h : bytesAt b i = some payload) :
    payload.length < 2 ^ 64 := by
  simp only [bytesAt, sizeAt, Option.bind_eq_some_iff] at h
  obtain ⟨n, ⟨w, -, hw⟩, h⟩ := h
  split at hw
  · next hlt =>
    cases hw
    split at h
    · cases h
      exact lt_of_le_of_lt (List.length_take_le n (b.drop (i + 32))) hlt
    · cases h
  · cases hw

/-- The id and the length of the payload of an action that arrives as calldata. -/
theorem decodeCall_bounds {data : Bytes} {agentId : ℕ} {kind : UInt8} {payload : Bytes}
    (h : decodeCall data = some (.recordAction agentId kind payload)) :
    agentId < 2 ^ 256 ∧ payload.length < 2 ^ 64 := by
  have hargs : recordActionArguments (data.drop 4) = some (.recordAction agentId kind payload) := by
    unfold decodeCall at h
    split at h
    · simp [registerArguments, Option.bind_eq_some_iff] at h
    · split at h
      · exact h
      · split at h
        · simp at h
        · cases h
  simp only [recordActionArguments, Option.bind_eq_bind, Option.bind_eq_some_iff,
    Option.pure_def, Option.some.injEq, Call.recordAction.injEq] at hargs
  obtain ⟨a, ha, k, -, offset, -, p, hp, rfl, -, rfl⟩ := hargs
  exact ⟨wordAt_lt ha, length_bytesAt hp⟩

/-- The same for a registration. -/
theorem decodeCall_register_bounds {data : Bytes} {identityId : ℕ} {constitutionHash : Bytes32}
    {bondVault : Address} {darkPoolUrl : Bytes}
    (h : decodeCall data = some (.register identityId constitutionHash bondVault darkPoolUrl)) :
    identityId < 2 ^ 256 ∧ darkPoolUrl.length < 2 ^ 64 := by
  have hargs : registerArguments (data.drop 4) =
      some (.register identityId constitutionHash bondVault darkPoolUrl) := by
    unfold decodeCall at h
    split at h
    · exact h
    · split at h
      · simp [recordActionArguments, Option.bind_eq_some_iff] at h
      · split at h
        · simp at h
        · cases h
  simp only [registerArguments, Option.bind_eq_bind, Option.bind_eq_some_iff, Option.pure_def,
    Option.some.injEq, Call.register.injEq] at hargs
  obtain ⟨i, hi, _, -, _, -, offset, -, p, hp, rfl, -, -, rfl⟩ := hargs
  exact ⟨wordAt_lt hi, length_bytesAt hp⟩

/-! ## Views -/

/-- `abi.encode` of an `Agent`. -/
def encodeAgent (agent : Agent) : Bytes :=
  word 32 ++ (word agent.identityId ++ (bytes32 agent.constitutionHash ++
    (addressWord agent.bondVault ++ (word 224 ++ (addressWord agent.operator ++
      (word agent.registeredAt ++ (word agent.active.toNat ++ bytes agent.darkPoolUrl)))))))

/-- What a call of a view answers; `none` is a revert. -/
def view (s : State) (data : Bytes) : Option Bytes :=
  if data.take 4 = agentCountSelector then some (word s.agentCount)
  else if data.take 4 = getAgentSelector then
    (wordAt (data.drop 4) 0).bind fun agentId => (getAgent s agentId).toOption.map encodeAgent
  else none

theorem view_agentCount (s : State) : view s agentCountSelector = some (word s.agentCount) := by
  have htake := take_selector "agentCount()" []
  rw [List.append_nil] at htake
  rw [view, agentCountSelector, htake, if_pos rfl]

theorem view_getAgent (s : State) {agentId : ℕ} (h : agentId < 2 ^ 256) :
    view s (getAgentSelector ++ word agentId) = (getAgent s agentId).toOption.map encodeAgent := by
  have htake := take_selector "getAgent(uint256)" (word agentId)
  have hdrop := drop_selector "getAgent(uint256)" (word agentId)
  have hne : getAgentSelector ≠ agentCountSelector := by
    have h := selectors_nodup
    simp only [List.nodup_cons, List.mem_cons, not_or] at h
    exact Ne.symm h.2.2.2.1.1
  rw [getAgentSelector] at hne ⊢
  have hword : wordAt (word agentId) 0 = some agentId := by
    have hread := wordAt_word (r := []) h
    rwa [List.append_nil] at hread
  rw [view, htake, hdrop, if_neg hne, getAgentSelector, if_pos rfl, hword, Option.bind_some]

/-! ## Events -/

def Log.topics : Log → List Bytes
  | .agentRegistered agentId identityId operator _ =>
    [keccak256 (signature "AgentRegistered(uint256,uint256,address,bytes32)"), word agentId,
      word identityId, addressWord operator]
  | .agentAction agentId kind _ _ =>
    [keccak256 (signature "AgentAction(uint256,uint8,bytes,uint256)"), word agentId,
      word kind.toNat]
  | .agentDeactivated agentId =>
    [keccak256 (signature "AgentDeactivated(uint256)"), word agentId]

def Log.data : Log → Bytes
  | .agentRegistered _ _ _ constitutionHash => bytes32 constitutionHash
  | .agentAction _ _ payload timestamp => word 64 ++ (word timestamp ++ bytes payload)
  | .agentDeactivated _ => []

end AgentRegistry
end Arcane
