import Arcane.Lib.Traverse
import Arcane.Registry.Reputation

/-!
# The directory that the service lists

`list_agents` of `registry_api.py`: the count of the agents, and then one call of the view for each,
whose answer `decode_agent_tuple` reads.

* `registryNode`: what a node answers that runs the contract. `Served`: each answer may come from a
  later state than the one before.
* `ReadsAgent`, `readsAgent`: a decoder of the ABI reads what the contract encodes, unless the url
  is no UTF-8, on which it raises.
* `listing_exact`: what is listed, and when it raises.
-/

namespace Arcane
namespace Registry

open Text Abi Evm AgentRegistry Trace

/-- What `abi_decode` gives for an `Agent`. -/
structure AgentTuple where
  identityId : ℕ
  constitutionHash : Bytes
  bondVault : Address
  darkPoolUrl : Str
  operator : Address
  registeredAt : ℕ
  active : Bool
  deriving DecidableEq

/-- `abi_decode([_AGENT_TUPLE], raw)[0]`, which may raise. -/
abbrev AgentDecoder := Bytes → Option AgentTuple

/-- An agent in the answer. -/
structure ListedAgent where
  identityId : ℕ
  constitutionHash : Str
  bondVault : Str
  darkPoolUrl : Str
  operator : Str
  registeredAt : ℕ
  active : Bool
  agentId : ℕ
  /-- Wins and losses. -/
  reputation : ℕ × ℕ
  deriving DecidableEq

/-- A decoder reads back what is encoded. It decodes the url strictly. -/
def ReadsAgent (decode : AgentDecoder) : Prop :=
  ∀ agent : Agent, agent.identityId < 2 ^ 256 → agent.registeredAt < 2 ^ 64 →
    agent.darkPoolUrl.length < 2 ^ 64 → decode (encodeAgent agent) =
      (utf8Decode agent.darkPoolUrl).map fun url =>
        ⟨agent.identityId, bytes32 agent.constitutionHash, agent.bondVault, url, agent.operator,
          agent.registeredAt, agent.active⟩

section Service

variable (U : Unicode) (decode : AgentDecoder) (reputation : Str → ℕ × ℕ)
  (ethCall : Str → Option Str)

def encodeAgentCount : Str := Python.hex0x agentCountSelector

def agentRequest (agentId : ℕ) : Str := Python.hex0x (getAgentSelector ++ word agentId)

/-- `encode_get_agent`. `abi_encode` raises on numbers from `2 ^ 256`. -/
def encodeGetAgent (agentId : ℕ) : Option Str :=
  if agentId < 2 ^ 256 then some (agentRequest agentId) else none

/-- `decode_agent_tuple`, with the id and the reputation that `get_agent` adds; `reputation` is
`_reputation_for` as a function of the operator. -/
def decodeAgentTuple (agentId : ℕ) (returnHex : Str) : Option ListedAgent := do
  let raw ← Python.fromHex (Python.remove0x returnHex)
  let t ← decode raw
  let operator := Web.addressKey t.operator
  return {
    identityId := t.identityId
    constitutionHash := Python.hex0x t.constitutionHash
    bondVault := Web.addressKey t.bondVault
    darkPoolUrl := t.darkPoolUrl
    operator
    registeredAt := t.registeredAt
    active := t.active
    agentId
    reputation := reputation operator }

/-- `agent_count`. `ethCall` is `_eth_call` of the registry; it raises when the view reverts. -/
def agentCount : Option ℤ := do
  let out ← ethCall encodeAgentCount
  if out = [] ∨ out = lit "0x" then return 0 else Python.intOfText16 U out

/-- `get_agent`. -/
def getAgent (agentId : ℕ) : Option ListedAgent := do
  let data ← encodeGetAgent agentId
  let out ← ethCall data
  decodeAgentTuple decode reputation agentId out

/-- `list_agents`. -/
def listAgents : Option (List ListedAgent) := do
  let count ← agentCount U ethCall
  (List.range count.toNat).mapM fun i => getAgent decode reputation ethCall (i + 1)

end Service

/-! ## The node -/

/-- The answers of a node to calls of the views; `states` are those of the contract when it
answers. -/
def registryNode (states : Str → State) (data : Str) : Option Str :=
  ((Python.fromHex (Python.remove0x data)).bind (view (states data))).map Python.hex0x

/-- Such a decoder. -/
def decodeAgent : AgentDecoder := fun b => do
  let start ← sizeAt b 0
  let t := b.drop start
  let identityId ← wordAt t 0
  let constitutionHash ← bytes32At t 32
  let bondVault ← addressAt t 64
  let offset ← sizeAt t 96
  let url ← bytesAt t offset
  let darkPoolUrl ← utf8Decode url
  let operator ← addressAt t 128
  let registeredAt ← sizeAt t 160
  let active ← boolAt t 192
  return ⟨identityId, bytes32 constitutionHash, bondVault, darkPoolUrl, operator, registeredAt,
    active⟩

theorem readsAgent : ReadsAgent decodeAgent := by
  intro agent hid htime hurl
  have hstart : sizeAt (encodeAgent agent) 0 = some 32 := by
    rw [encodeAgent, sizeAt_word (by decide)]
  obtain ⟨t, ht⟩ : ∃ t, t = (encodeAgent agent).drop 32 := ⟨_, rfl⟩
  have ht' : t = word agent.identityId ++ (bytes32 agent.constitutionHash ++
      (addressWord agent.bondVault ++ (word 224 ++ (addressWord agent.operator ++
        (word agent.registeredAt ++ (word agent.active.toNat ++ bytes agent.darkPoolUrl)))))) := by
    rw [ht, encodeAgent]
    exact List.drop_left' (length_word _)
  have hidentity : wordAt t 0 = some agent.identityId := by rw [ht', wordAt_word hid]
  have hhash : bytes32At t 32 = some agent.constitutionHash := by
    rw [ht', bytes32At_append (by simp), length_word, Nat.sub_self, bytes32At_bytes32]
  have hvault : addressAt t 64 = some agent.bondVault := by
    rw [ht', addressAt_append (by simp), length_word, addressAt_append (by simp), length_bytes32,
      Nat.sub_self, addressAt_addressWord]
  have hoffset : sizeAt t 96 = some 224 := by
    rw [ht', sizeAt_append (by simp), length_word, sizeAt_append (by simp), length_bytes32,
      sizeAt_append (by simp), length_addressWord, Nat.sub_self, sizeAt_word (by decide)]
  have hoperator : addressAt t 128 = some agent.operator := by
    rw [ht', addressAt_append (by simp), length_word, addressAt_append (by simp), length_bytes32,
      addressAt_append (by simp), length_addressWord, addressAt_append (by simp), length_word,
      Nat.sub_self, addressAt_addressWord]
  have hregistered : sizeAt t 160 = some agent.registeredAt := by
    rw [ht', sizeAt_append (by simp), length_word, sizeAt_append (by simp), length_bytes32,
      sizeAt_append (by simp), length_addressWord, sizeAt_append (by simp), length_word,
      sizeAt_append (by simp), length_addressWord, Nat.sub_self, sizeAt_word htime]
  have hactive : boolAt t 192 = some agent.active := by
    rw [ht', boolAt_append (by simp), length_word, boolAt_append (by simp), length_bytes32,
      boolAt_append (by simp), length_addressWord, boolAt_append (by simp), length_word,
      boolAt_append (by simp), length_addressWord, boolAt_append (by simp), length_word,
      Nat.sub_self, boolAt_word]
  have hbytes : bytesAt t 224 = some agent.darkPoolUrl := by
    rw [ht', bytesAt_append (by simp), length_word, bytesAt_append (by simp), length_bytes32,
      bytesAt_append (by simp), length_addressWord, bytesAt_append (by simp), length_word,
      bytesAt_append (by simp), length_addressWord, bytesAt_append (by simp), length_word,
      bytesAt_append (by simp), length_word, Nat.sub_self, bytesAt_bytes_end hurl]
  rw [decodeAgent, hstart]
  simp only [Option.bind_eq_bind, Option.bind_some, ← ht, hidentity, hhash, hvault, hoffset, hbytes,
    hoperator, hregistered, hactive, Option.pure_def]
  cases utf8Decode agent.darkPoolUrl <;> rfl

/-! ## What is listed -/

/-- The calls arrive as calldata. -/
def OnWire (tr : List (Trace.Step State Event)) : Prop :=
  ∀ st ∈ tr, ∃ data, decodeCall data = some st.ev.call

/-- The count is answered from the state `s`, and the agents from states that were reached since. -/
structure Served (s : State) (states : Str → State) : Prop where
  count : states encodeAgentCount = s
  later : ∀ a, ∃ tr, OnWire tr ∧ Run Step s tr (states (agentRequest a))

/-- The values that an `Agent` has in storage. -/
structure Encodable (agent : Agent) : Prop where
  identityId : agent.identityId < 2 ^ 256
  registeredAt : agent.registeredAt < 2 ^ 64
  darkPoolUrl : agent.darkPoolUrl.length < 2 ^ 64

/-- What is listed of the agent `a`, if its url is one. -/
def listed (reputation : Str → ℕ × ℕ) (s : State) (a : ℕ) : Option ListedAgent :=
  (utf8Decode (s.agents a).darkPoolUrl).map fun url =>
    { identityId := (s.agents a).identityId
      constitutionHash := Python.hex0x (bytes32 (s.agents a).constitutionHash)
      bondVault := Web.addressKey (s.agents a).bondVault
      darkPoolUrl := url
      operator := Web.addressKey (s.agents a).operator
      registeredAt := (s.agents a).registeredAt
      active := (s.agents a).active
      agentId := a
      reputation := reputation (Web.addressKey (s.agents a).operator) }

section

variable {U : Unicode} {decode : AgentDecoder} {reputation : Str → ℕ × ℕ} {s s' : State}
  {states states' : Str → State} {tr tr' : List (Trace.Step State Event)} {a : ℕ}

theorem OnWire.append (h : OnWire tr) (h' : OnWire tr') : OnWire (tr ++ tr') := fun st hst =>
  (List.mem_append.mp hst).elim (h st) (h' st)

/-- Every registered agent came as calldata in a transaction. -/
theorem encodable (h : Run Step .initial tr s) (hwire : OnWire tr) (ha : s.Holds a) :
    a < 2 ^ 256 ∧ Encodable (s.agents a) := by
  obtain ⟨⟨st, hst, henrolls⟩, -⟩ := enrolled h a ha
  obtain ⟨data, hdata⟩ := hwire st hst
  obtain ⟨_, _, -, -, hstep, -⟩ := h.of_mem hst
  obtain ⟨hterms, -, -, hcount⟩ := henrolls
  unfold Event.agent at hterms
  split at hterms
  · next identityId constitutionHash bondVault darkPoolUrl hcall =>
    have hfields := Option.some.inj hterms
    rw [hcall] at hdata
    obtain ⟨hid, hurl⟩ := decodeCall_register_bounds hdata
    obtain ⟨-, hexec⟩ := hstep
    simp only [exec, hcall, register, map_eq_pure_bind, bind_ok, revertIf_ok, reply_ok, U256.add_ok,
      pure_ok] at hexec
    obtain ⟨_, ⟨_, -, _, -, _, -, _, -, _, -, _, ⟨hlt, -⟩, -⟩, -⟩ := hexec
    refine ⟨hcount ▸ hlt, ?_, ?_, ?_⟩
    · exact (congrArg Agent.identityId hfields).symm.trans_lt hid
    · exact (congrArg Agent.registeredAt hfields).symm.trans_lt st.ev.msg.timestamp_lt
    · have hsame : darkPoolUrl = (s.agents a).darkPoolUrl := congrArg Agent.darkPoolUrl hfields
      exact hsame ▸ hurl
  · cases hterms

theorem agentCount_node (hserved : Served s states) (hcount : s.agentCount < 2 ^ 256) :
    agentCount U (registryNode states) = some (s.agentCount : ℤ) := by
  have hout : registryNode states encodeAgentCount = some (Python.hex0x (word s.agentCount)) := by
    rw [registryNode, hserved.count, encodeAgentCount, Python.remove0x_hex0x, Python.fromHex_hex,
      Option.bind_some, view_agentCount, Option.map_some]
  have hlen : (word s.agentCount).length = 32 := length_word _
  have hne : word s.agentCount ≠ [] := by
    rintro h
    rw [h] at hlen
    cases hlen
  have hempty : ¬ (Python.hex0x (word s.agentCount) = [] ∨
      Python.hex0x (word s.agentCount) = lit "0x") := by
    rintro (h | h)
    · cases h
    · exact hne (Python.hex0x_injective (h.trans rfl : _ = Python.hex0x []))
  rw [agentCount, hout]
  simp only [Option.bind_eq_bind, Option.bind_some, if_neg hempty, Python.intOfText16_hex U hne]
  rw [word, ofBytes_toBytes (lt_of_lt_of_eq hcount (by decide))]

/-- The agent is listed as it is in the state that answers for it. -/
theorem getAgent_node (hdecode : ReadsAgent decode) (hs : WellFormed s) (ha : s.Holds a)
    (hlt : a < 2 ^ 256) (hagent : Encodable (s.agents a)) (hstate : states (agentRequest a) = s) :
    getAgent decode reputation (registryNode states) a = listed reputation s a := by
  have hview := view_getAgent s hlt
  rw [getAgent_of_holds hs ha] at hview
  have hout : registryNode states (agentRequest a) =
      some (Python.hex0x (encodeAgent (s.agents a))) := by
    rw [registryNode, hstate, agentRequest, Python.remove0x_hex0x, Python.fromHex_hex,
      Option.bind_some, hview]
    rfl
  have hread := hdecode _ hagent.identityId hagent.registeredAt hagent.darkPoolUrl
  simp only [getAgent, encodeGetAgent, if_pos hlt, Option.bind_eq_bind, Option.bind_some, hout,
    decodeAgentTuple, Python.remove0x_hex0x, Python.fromHex_hex, hread, listed]
  cases utf8Decode (s.agents a).darkPoolUrl <;> rfl

/-- The service lists the agents one after the other. -/
theorem listAgents_eq (hdecode : ReadsAgent decode) (h : Run Step .initial tr s)
    (hwire : OnWire tr) (hserved : Served s states) :
    listAgents U decode reputation (registryNode states) = (List.range s.agentCount).mapM fun i =>
      listed reputation (states (agentRequest (i + 1))) (i + 1) := by
  have hcount : s.agentCount < 2 ^ 256 := by
    by_cases hzero : s.agentCount = 0
    · rw [hzero]
      decide
    · exact (encodable h hwire ⟨Nat.one_le_iff_ne_zero.mpr hzero, le_refl _⟩).1
  rw [listAgents, agentCount_node hserved hcount]
  simp only [Option.bind_eq_bind, Option.bind_some, Int.toNat_natCast]
  refine Traverse.mapM_congr fun i hi => ?_
  obtain ⟨tr', hwire', hlater⟩ := hserved.later (i + 1)
  have hrun := h.append hlater
  have ha := (keeps hlater).holds (i + 1) ⟨Nat.le_add_left 1 i, List.mem_range.mp hi⟩
  obtain ⟨hlt, hagent⟩ := encodable hrun (hwire.append hwire') ha
  exact getAgent_node hdecode (wellFormed hrun) ha hlt hagent rfl

/-- An agent keeps its url. -/
theorem darkPoolUrl_later (h : Run Step s tr s') (ha : s.Holds a) :
    (s'.agents a).darkPoolUrl = (s.agents a).darkPoolUrl := by
  have hterms := congrArg Agent.darkPoolUrl ((keeps h).terms a ha)
  exact hterms

/-- The listing raises on one agent whose url is no UTF-8. -/
theorem listAgents_eq_none (hdecode : ReadsAgent decode) (h : Run Step .initial tr s)
    (hwire : OnWire tr) (hserved : Served s states) :
    listAgents U decode reputation (registryNode states) = none ↔
      ∃ a, s.Holds a ∧ utf8Decode (s.agents a).darkPoolUrl = none := by
  have hurl {a : ℕ} (ha : s.Holds a) : listed reputation (states (agentRequest a)) a = none ↔
      utf8Decode (s.agents a).darkPoolUrl = none := by
    obtain ⟨tr', -, hlater⟩ := hserved.later a
    rw [listed, Option.map_eq_none_iff, darkPoolUrl_later hlater ha]
  rw [listAgents_eq hdecode h hwire hserved, Traverse.mapM_eq_none]
  constructor
  · rintro ⟨i, hi, hnone⟩
    have ha : s.Holds (i + 1) := ⟨Nat.le_add_left 1 i, List.mem_range.mp hi⟩
    exact ⟨i + 1, ha, (hurl ha).mp hnone⟩
  · rintro ⟨a, ha, hnone⟩
    obtain ⟨i, rfl⟩ := Nat.exists_eq_add_of_le' ha.1
    exact ⟨i, List.mem_range.mpr ha.2, (hurl ha).mpr hnone⟩

/-- What the service lists when the node counts the agents in the state `s`. -/
structure ListingExact (U : Unicode) (decode : AgentDecoder) (reputation : Str → ℕ × ℕ)
    (s : State) (states : Str → State) : Prop where
  /-- The agents from 1 to the count, each as it is when it is asked for. -/
  agents : ∀ l, listAgents U decode reputation (registryNode states) = some l →
    l.map some = (List.range s.agentCount).map fun i =>
      listed reputation (states (agentRequest (i + 1))) (i + 1)
  /-- Only the activity of an agent may have changed since the count. -/
  terms : ∀ a, s.Holds a → ((states (agentRequest a)).agents a).terms = (s.agents a).terms
  raises : listAgents U decode reputation (registryNode states) = none ↔
    ∃ a, s.Holds a ∧ utf8Decode (s.agents a).darkPoolUrl = none
  /-- No later call repairs it: an agent keeps its url, also when it is deactivated. -/
  forever : listAgents U decode reputation (registryNode states) = none →
    ∀ tr' s' states', Run Step s tr' s' → OnWire tr' → Served s' states' →
      listAgents U decode reputation (registryNode states') = none

theorem listing_exact (hdecode : ReadsAgent decode) (h : Run Step .initial tr s)
    (hwire : OnWire tr) (hserved : Served s states) (U : Unicode) (reputation : Str → ℕ × ℕ) :
    ListingExact U decode reputation s states := by
  refine ⟨fun l hl => ?_, fun a ha => ?_, listAgents_eq_none hdecode h hwire hserved,
    fun hnone tr' s' states' h' hwire' hserved' => ?_⟩
  · rw [listAgents_eq hdecode h hwire hserved] at hl
    exact (Traverse.map_of_mapM hl).symm
  · obtain ⟨tr', -, hlater⟩ := hserved.later a
    exact (keeps hlater).terms a ha
  · obtain ⟨a, ha, hurl⟩ := (listAgents_eq_none hdecode h hwire hserved).mp hnone
    refine (listAgents_eq_none hdecode (h.append h') (hwire.append hwire') hserved').mpr
      ⟨a, (keeps h').holds a ha, ?_⟩
    rw [darkPoolUrl_later h' ha]
    exact hurl

end

namespace Listing.Demo

open AgentRegistry.Demo

/-- An agent is registered with the url. -/
def registered (url : Bytes) : State := transact exec .initial
  ⟨.of 0xA1 3, answers, .register 7 9 0xBB url⟩

/-- A url of one ASCII character is listed, and a single byte that is no UTF-8 stops the listing. -/
theorem urls_listed :
    (listAgents .ascii decodeAgent (fun _ => (0, 0))
      (registryNode fun _ => registered [104])).isSome ∧
    listAgents .ascii decodeAgent (fun _ => (0, 0)) (registryNode fun _ => registered [255]) =
      none := by
  have hwire (url : Bytes) (hurl : url.length < 2 ^ 64) : OnWire
      [⟨.initial, ⟨.of 0xA1 3, answers, .register 7 9 0xBB url⟩, registered url⟩] := by
    intro st hst
    obtain rfl := List.mem_singleton.mp hst
    exact ⟨_, decodeCall_register (by decide) hurl⟩
  have hserved (s : State) : Served s fun _ => s := ⟨rfl, fun _ => ⟨[], by simp [OnWire], .nil⟩⟩
  have hgood : Run Step .initial _ (registered [104]) :=
    Run.nil.snoc ⟨.of 0xA1 3, answers, .register 7 9 0xBB [104]⟩ ⟨trivial, rfl⟩
  have hbad : Run Step .initial _ (registered [255]) :=
    Run.nil.snoc ⟨.of 0xA1 3, answers, .register 7 9 0xBB [255]⟩ ⟨trivial, rfl⟩
  have hlisted := listing_exact readsAgent hgood (hwire _ (by decide)) (hserved _) .ascii
    fun _ => (0, 0)
  have hstops := listing_exact readsAgent hbad (hwire _ (by decide)) (hserved _) .ascii
    fun _ => (0, 0)
  constructor
  · rw [Option.isSome_iff_ne_none, Ne, hlisted.raises]
    rintro ⟨a, ⟨hpos, hle⟩, hnone⟩
    obtain rfl : a = 1 := le_antisymm hle hpos
    have hread : utf8Decode [104] = some (lit "h") := utf8Decode_utf8 (by decide +kernel)
    cases hread.symm.trans hnone
  · exact hstops.raises.mpr ⟨1, ⟨le_refl _, le_refl _⟩, by decide +kernel⟩

end Listing.Demo

end Registry
end Arcane
