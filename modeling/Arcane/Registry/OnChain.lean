import Arcane.AgentRegistry.Wire
import Arcane.Lib.Doubles
import Arcane.Lib.Hex
import Arcane.Registry.AllOrNothing

/-!
# An advice on the chain

The registry service against the contract that it writes to, and those who read the action there:
`decode_advice_payload` of `registry_api.py` and `decodeActionTrace` of the web's `arena.ts`.

* `render`: how a node writes an event of the contract in a receipt.
* `Chain`: the node that answers the service runs the contract.
* `ReadsAdvice`: a decoder of the ABI, of which there are two, reads what `abi_encode` writes.
* `published_on_chain`: an advice that the route confirms is an action of its agent's operator in
  the event stream, and everyone reads there what the memory holds.
-/

namespace Arcane
namespace Registry

open Text Memory DarkPool Abi AgentRegistry Evm Trace

/-- An event of the contract in the receipt of its transaction. -/
def render (addr : Str) (log : Log) : EventLog where
  address := some addr
  topics := some (log.topics.map Python.hex0x)
  data := some (Python.hex0x log.data)

/-! ## Readers of the payload -/

/-- `abi_decode(["string", "string", "string", "bytes32"], data)`, or `decodeAbiParameters`. -/
abbrev AdviceDecoder := Bytes → Option (Str × Str × Str × Bytes)

/-- The trace of an advice, as both readers return it. -/
structure AdviceTrace where
  reasoning : Str
  symbol : Str
  stance : Str
  adviceHash : Str
  deriving DecidableEq

def AdviceTrace.of (r : Str × Str × Str × Bytes) : AdviceTrace :=
  ⟨r.1, r.2.1, r.2.2.1, Python.hex0x r.2.2.2⟩

/-- `decode_advice_payload` of a `bytes`. -/
def decodeAdvicePayload (decode : AdviceDecoder) (payload : Bytes) : Option AdviceTrace :=
  if payload.length ≤ 32 then none else (decode payload).map .of

/-- `ActionTrace`. -/
structure ActionTrace (D : Type) where
  advice : Option AdviceTrace
  resolveBps : Option D
  deriving DecidableEq

def ActionTrace.empty {D : Type} : ActionTrace D := ⟨none, none⟩

/-- `decodeActionTrace`; `decodeInt` is `decodeAbiParameters` for an `int256`. -/
def decodeActionTrace {D : Type} (N : Doubles D) (decode : AdviceDecoder)
    (decodeInt : Bytes → Option ℤ) (kind : ℕ) (payload : Str) : ActionTrace D :=
  if kind = 0 then
    if payload.length ≤ 66 then .empty
    else
      match (Python.fromHex (Python.remove0x payload)).bind decode with
      | some r => ⟨some (.of r), none⟩
      | none => .empty
  else if kind = 3 ∨ kind = 4 then
    match (Python.fromHex (Python.remove0x payload)).bind decodeInt with
    | some bps => ⟨none, some (N.ofInt bps)⟩
    | none => .empty
  else .empty

/-- `abi_encode(["string", "string", "string", "bytes32"], …)` of encoded texts. -/
def adviceBytes (reasoning symbol stance hash : Bytes) : Bytes :=
  word 128 ++ word (128 + (bytes reasoning).length) ++
    word (128 + (bytes reasoning).length + (bytes symbol).length) ++ hash ++
    (bytes reasoning ++ bytes symbol ++ bytes stance)

/-- A decoder reads back what is encoded. -/
def ReadsAdvice (decode : AdviceDecoder) : Prop :=
  ∀ {r s t : Str} {reasoning symbol stance hash : Bytes},
    utf8 r = some reasoning → utf8 s = some symbol → utf8 t = some stance → hash.length = 32 →
    (adviceBytes reasoning symbol stance hash).length < 2 ^ 64 →
    decode (adviceBytes reasoning symbol stance hash) = some (r, s, t, hash)

/-! ## The service and the contract -/

/-- `abi_encode` of the data of an action. -/
def actionData (payload : Bytes) (timestamp : ℕ) : Bytes :=
  word 64 ++ (word timestamp ++ bytes payload)

variable {F E : Type}

/-- The service talks to a node that has run the calls `tr` of the registry contract: a receipt that
says so is one of them, with its one event. Its packages do what they are documented to do. -/
structure Chain (R : RegistryService F E) (tr : List (Trace.Step State Event)) : Prop where
  keccak : R.packages.keccak = keccak256
  decode : ∀ {payload : Bytes} {timestamp : ℕ}, payload.length < 2 ^ 64 → timestamp < 2 ^ 256 →
    R.abiDecode (actionData payload timestamp) = some (payload, timestamp)
  size : ∀ {data tx}, R.signAndBroadcast R.registryAddr data = .ok tx → data.length < 2 ^ 64
  mined : ∀ {data tx receipt}, R.signAndBroadcast R.registryAddr data = .ok tx →
    .ok (some receipt) ∈ R.polls tx → R.int16 (receipt.status.getD (lit "0x0")) = .ok 1 →
    ∃ st ∈ tr, decodeCall data = some st.ev.call ∧ ∃ addr,
      R.unicode.lower addr = R.unicode.lower R.registryAddr ∧
      receipt.logs = some [render addr (emitted st)]

/-- What the service tells of an action. -/
def actionJson (agentId : ℕ) (kind : UInt8) (payload : Bytes) (timestamp : ℕ) : Json F :=
  .obj [(lit "agent_id", .int agentId), (lit "kind", .int kind.toNat),
    (lit "payload", .str (Python.hex0x payload)), (lit "timestamp", .int timestamp)]

namespace RegistryService

variable {R : RegistryService F E} {tr : List (Trace.Step State Event)} {s : State}
  {agentId : ℤ} {body : Advice F} {tx : Str} {receipt : Receipt}

theorem topicNumber_word {n : ℕ} (h : n < 2 ^ 256) :
    R.topicNumber (some (Python.hex0x (word n))) = .ok (.int n) := by
  have hne : word n ≠ [] := by
    intro hnil
    have hlen := length_word n
    rw [hnil] at hlen
    cases hlen
  have hread : Abi.ofBytes (word n) = n := ofBytes_toBytes (by omega)
  rw [topicNumber, int16, Python.intOfText16_hex R.unicode hne, hread]
  rfl

/-- The service finds the event of an action in its receipt. -/
theorem findAction_render (hC : Chain R tr) {addr : Str}
    (haddr : R.unicode.lower addr = R.unicode.lower R.registryAddr) {a : ℕ} {kind : UInt8}
    {payload : Bytes} {timestamp : ℕ} (ha : a < 2 ^ 256) (hlen : payload.length < 2 ^ 64)
    (ht : timestamp < 2 ^ 256) :
    R.findAction [render addr (.agentAction a kind payload timestamp)] =
      .ok (actionJson a kind payload timestamp) := by
  have htopic : R.agentActionTopic =
      Python.hex0x (keccak256 (signature "AgentAction(uint256,uint8,bytes,uint256)")) := by
    rw [agentActionTopic, hC.keccak]
    rfl
  have hkind : kind.toNat < 2 ^ 256 := by
    have := kind.toNat_lt
    omega
  have hdata : Python.fromHex (Python.remove0x (Python.hex0x (actionData payload timestamp))) =
      some (actionData payload timestamp) := by
    rw [Python.remove0x_hex0x, Python.fromHex_hex]
  have hcons := Python.hex0x_cons (actionData payload timestamp)
  have hdecode : R.decodeAction [Python.hex0x (word a), Python.hex0x (word kind.toNat)]
      (some (Python.hex0x (actionData payload timestamp))) =
        .ok (actionJson a kind payload timestamp) := by
    rw [hcons] at hdata ⊢
    simp only [decodeAction, List.getElem?_cons_zero, List.getElem?_cons_succ, Python.bind_eq_ok,
      orFail_eq_ok]
    exact ⟨_, topicNumber_word ha, _, topicNumber_word hkind, _, hdata, _, hC.decode hlen ht, rfl⟩
  simp only [findAction, render, Log.topics, Log.data, List.map_cons, List.map_nil,
    Option.getD_some, haddr, htopic, ne_eq, not_true_eq_false, if_false]
  exact hdecode

theorem mem_of_firstReceipt {answers : List (Except Str (Option Receipt))}
    (h : firstReceipt tx answers = .ok receipt) : .ok (some receipt) ∈ answers := by
  induction answers with
  | nil => cases h
  | cons answer answers ih =>
    cases answer with
    | error text => cases h
    | ok found =>
      cases found with
      | none => exact List.mem_cons_of_mem _ (ih h)
      | some receipt' =>
        cases h
        exact List.mem_cons_self

/-- The calldata of the service is what the contract decodes. -/
theorem encodeRecordAction_eq (hk : R.packages.keccak = keccak256) {a kind : ℕ} (ha : a < 2 ^ 256)
    (payload : Bytes) : R.encodeRecordAction a kind payload =
      some (Python.hex0x (recordActionSelector ++
        AgentRegistry.encodeRecordAction a kind payload)) := by
  have hid : 0 ≤ (a : ℤ) ∧ (a : ℤ) < 2 ^ 256 := by omega
  have hsignature : utf8 (lit "recordAction(uint256,uint8,bytes)") =
      some (signature "recordAction(uint256,uint8,bytes)") := rfl
  rw [RegistryService.encodeRecordAction, if_pos hid, hsignature, hk, Option.map_some,
    Int.toNat_natCast, List.append_assoc, List.append_assoc]
  rfl

theorem encodeRecordAction_eq_some (hk : R.packages.keccak = keccak256) {kind : ℕ}
    {payload : Bytes} {data : Str} (h : R.encodeRecordAction agentId kind payload = some data) :
    ∃ a : ℕ, a < 2 ^ 256 ∧ (a : ℤ) = agentId ∧ data = Python.hex0x (recordActionSelector ++
      AgentRegistry.encodeRecordAction a kind payload) := by
  by_cases hid : 0 ≤ agentId ∧ agentId < 2 ^ 256
  · obtain ⟨a, rfl⟩ := Int.eq_ofNat_of_zero_le hid.1
    have ha : a < 2 ^ 256 := by omega
    have hencode : R.encodeRecordAction (a : ℤ) kind payload =
        some (Python.hex0x (recordActionSelector ++
          AgentRegistry.encodeRecordAction a kind payload)) :=
      encodeRecordAction_eq hk ha payload
    exact ⟨a, ha, rfl, Option.some.inj (h.symm.trans hencode)⟩
  · rw [RegistryService.encodeRecordAction, if_neg hid] at h
    cases h

/-- The transaction that was mined for an advice is a call of `recordAction` with its payload. -/
theorem Mined.call (h : R.Mined agentId body tx receipt) (hC : Chain R tr) :
    ∃ payload, R.payload body = .ok payload ∧ payload.length < 2 ^ 64 ∧
      ∃ a : ℕ, (a : ℤ) = agentId ∧ a < 2 ^ 256 ∧ ∃ st ∈ tr, st.ev.call = .recordAction a 0 payload ∧
        ∃ addr, R.unicode.lower addr = R.unicode.lower R.registryAddr ∧
          receipt.logs = some [render addr (emitted st)] := by
  obtain ⟨payload, data, hpayload, hdata, hsend⟩ := h.sent
  obtain ⟨a, ha, rfl, hencode⟩ := encodeRecordAction_eq_some hC.keccak hdata
  have hcalldata : Python.fromHex (Python.remove0x data) =
      some (recordActionSelector ++ AgentRegistry.encodeRecordAction a 0 payload) := by
    rw [hencode, Python.remove0x_hex0x, Python.fromHex_hex]
    rfl
  rw [castSend, Python.bind_eq_ok] at hsend
  obtain ⟨bytes, hread, hsend⟩ := hsend
  rw [orFail_eq_ok, hcalldata, Option.some.injEq] at hread
  subst hread
  rw [Python.mapError_eq_ok] at hsend
  have hlen : payload.length < 2 ^ 64 := by
    have hsize := hC.size hsend
    simp only [AgentRegistry.encodeRecordAction, Abi.bytes, List.length_append] at hsize
    omega
  obtain ⟨st, hst, hcall, haddr⟩ := hC.mined hsend (mem_of_firstReceipt h.received) h.status
  rw [decodeCall_recordAction ha (by decide) hlen, Option.some.injEq] at hcall
  exact ⟨payload, hpayload, hlen, a, rfl, ha, st, hst, hcall.symm, haddr⟩

/-! ## The payload -/

/-- The trace that the default payload of an advice carries. -/
def publishedTrace (R : RegistryService F E) (body : Advice F) (text : Bytes) : AdviceTrace where
  reasoning := body.trace
  symbol := R.upper (body.symbol.getD [])
  stance :=
    match body.stance with
    | some stance => if stance ∈ adviceStances then stance else lit "neutral"
    | none => lit "neutral"
  adviceHash := Python.hex0x (keccak256 text)

theorem encodeAdvicePayload_eq {reasoning symbol stance : Str} {payload : Bytes}
    (h : R.encodeAdvicePayload reasoning symbol stance = some payload) :
    ∃ text sym stc, utf8 reasoning = some text ∧ utf8 (R.upper symbol) = some sym ∧
      utf8 (if stance ∈ adviceStances then stance else lit "neutral") = some stc ∧
      payload = adviceBytes text sym stc (R.packages.keccak text) := by
  simp only [encodeAdvicePayload, Option.bind_eq_bind, Option.bind_eq_some_iff, Option.pure_def,
    Option.some.injEq] at h
  obtain ⟨text, htext, sym, hsym, stc, hstc, rfl⟩ := h
  exact ⟨text, sym, stc, htext, hsym, hstc, rfl⟩

/-- Both readers get the trace of the default payload. -/
theorem read_payload (hC : Chain R tr) {decode decode' : AdviceDecoder} (hD : ReadsAdvice decode)
    (hD' : ReadsAdvice decode') {D : Type} (N : Doubles D) (decodeInt : Bytes → Option ℤ)
    {payload : Bytes} (hpayload : R.payload body = .ok payload)
    (hlen : payload.length < 2 ^ 64) (hdefault : body.payload = none) :
    ∃ text, utf8 body.trace = some text ∧
      decodeAdvicePayload decode payload = some (R.publishedTrace body text) ∧
      decodeActionTrace N decode' decodeInt 0 (Python.hex0x payload) =
        ⟨some (R.publishedTrace body text), none⟩ := by
  rw [RegistryService.payload, hdefault] at hpayload
  simp only [orFail_eq_ok] at hpayload
  obtain ⟨text, sym, stc, htext, hsym, hstc, rfl⟩ := encodeAdvicePayload_eq hpayload
  rw [hC.keccak] at hlen ⊢
  have hstance : utf8 (R.publishedTrace body text).stance = some stc := by
    rw [← hstc, publishedTrace]
    cases body.stance with
    | none => rfl
    | some stance =>
      cases stance with
      | nil => rfl
      | cons c stance => rfl
  have hread := hD htext hsym hstance (length_keccak256 text) hlen
  have hread' := hD' htext hsym hstance (length_keccak256 text) hlen
  have hlong : 128 ≤ (adviceBytes text sym stc (keccak256 text)).length := by
    simp only [adviceBytes, List.length_append, length_word, length_keccak256]
    omega
  have htrace : AdviceTrace.of (body.trace, R.upper (body.symbol.getD []),
      (R.publishedTrace body text).stance, keccak256 text) = R.publishedTrace body text := rfl
  refine ⟨text, htext, ?_, ?_⟩
  · rw [decodeAdvicePayload, if_neg (by omega), hread, Option.map_some, htrace]
  · have hchars : 66 < (Python.hex0x (adviceBytes text sym stc (keccak256 text))).length := by
      rw [Python.hex0x, List.length_append, Python.length_hex]
      omega
    rw [decodeActionTrace, if_pos rfl, if_neg (by omega), Python.remove0x_hex0x, Python.fromHex_hex,
      Option.bind_some, hread']
    simp only [htrace]

/-! ## The whole route -/

/-- What a confirmed advice has become: the action `n` of the events that the contract has emitted
by the state `s`. -/
structure Published (R : RegistryService F E) (tr : List (Trace.Step State Event)) (s : State)
    (agentId : ℤ) (payload : Bytes) (event : Json F) : Prop where
  action : ∃ (n : ℕ) (st : Trace.Step State Event) (a : ℕ), tr[n]? = some st ∧ (a : ℤ) = agentId ∧
    s.logs[n]? = some (.agentAction a 0 payload st.ev.msg.timestamp) ∧
    st.ev.msg.sender = (s.agents a).operator ∧
    event = actionJson a 0 payload st.ev.msg.timestamp

theorem published (hC : Chain R tr) (hrun : Run Step .initial tr s) {event : Json F}
    (hmined : R.Mined agentId body tx receipt) (hevent : R.findAgentAction receipt = .ok event) :
    ∃ payload, R.payload body = .ok payload ∧ payload.length < 2 ^ 64 ∧
      Published R tr s agentId payload event := by
  obtain ⟨payload, hpayload, hlen, a, haid, ha, st, hst, hcall, addr, haddr, hlogs⟩ :=
    hmined.call hC
  obtain ⟨n, hn⟩ := List.getElem?_of_mem hst
  have hemitted : emitted st = .agentAction a 0 payload st.ev.msg.timestamp := by
    simp only [emitted, hcall]
  have hlog : s.logs[n]? = some (.agentAction a 0 payload st.ev.msg.timestamp) := by
    rw [logs_eq hrun, List.getElem?_map, hn, Option.map_some, hemitted]
  obtain ⟨st', hst', hrecords⟩ := action_records hrun hlog
  have hsame : st = st' := Option.some.inj (hn.symm.trans hst')
  subst hsame
  have htime : st.ev.msg.timestamp < 2 ^ 256 := st.ev.msg.timestamp_lt.trans (by decide)
  rw [findAgentAction, hlogs, Option.getD_some, hemitted, findAction_render hC haddr ha hlen htime]
    at hevent
  exact ⟨payload, hpayload, hlen, n, st, a, hn, haid, hlog, hrecords.sender,
    (Except.ok.inj hevent).symm⟩

theorem id_of_given {traceId id : Str} (hid : body.id R.packages = some traceId)
    (hgiven : body.traceId = some id) (hne : id ≠ []) : traceId = id := by
  obtain ⟨c, rest, rfl⟩ := List.exists_cons_of_ne_nil hne
  rw [AdviceBody.id, hgiven] at hid
  exact (Option.some.inj hid).symm

theorem id_of_none (hC : Chain R tr) {traceId : Str} {text : Bytes}
    (htext : utf8 body.trace = some text)
    (hid : body.id R.packages = some traceId) (hnone : body.traceId.getD [] = []) :
    traceId = lit "advice-" ++ ((R.publishedTrace body text).adviceHash.drop 2).take 16 := by
  have hderived : body.id R.packages =
      (utf8 body.trace).map fun b =>
        lit "advice-" ++ (Python.hex (R.packages.keccak b)).take 16 := by
    rw [AdviceBody.id]
    cases hgiven : body.traceId with
    | none => rfl
    | some id =>
      rw [hgiven, Option.getD_some] at hnone
      rw [hnone]
  rw [hderived, htext, hC.keccak] at hid
  exact (Option.some.inj hid).symm

/-- An advice that the route confirms stands in the event stream, under the operator of its agent.
Its event is the one that the route answers, the memory holds its trace, and whoever decodes the
default payload of the event reads that trace, its symbol, its stance and its hash, from which the
memory has the id of an advice that brings none. -/
theorem published_on_chain [Json.FloatText F] {memory : MemoryService F E} {now : Double F}
    {json : Json F} {decode decode' : AdviceDecoder} (hC : Chain R tr)
    (hrun : Run Step .initial tr s) (hD : ReadsAdvice decode) (hD' : ReadsAdvice decode')
    {D : Type} (N : Doubles D) (decodeInt : Bytes → Option ℤ) (hbody : R.advice json = .ok body)
    (hok : (R.adviceRoute memory now agentId json).2.status = 200) :
    ∃ payload tx traceId event memory', R.payload body = .ok payload ∧
      R.publish memory now agentId body = (memory', .ok
        (publishedContent tx traceId memory'.entries.items.length event)) ∧
      Published R tr s agentId payload event ∧
      (memory'.entries.get? traceId).map (·.payload) = some (advicePayload agentId body.trace) ∧
      (body.payload = none → ∃ text, utf8 body.trace = some text ∧
        decodeAdvicePayload decode payload = some (R.publishedTrace body text) ∧
        decodeActionTrace N decode' decodeInt 0 (Python.hex0x payload) =
          ⟨some (R.publishedTrace body text), none⟩ ∧
        (body.traceId.getD [] = [] → traceId = lit "advice-" ++
          ((R.publishedTrace body text).adviceHash.drop 2).take 16)) ∧
      ∀ id, body.traceId = some id → id ≠ [] → traceId = id := by
  cases hremember : R.remember memory now agentId body with
  | error f => exact absurd hok (adviceRoute_refused hbody hremember).2
  | ok r =>
    obtain ⟨tx, receipt, event, hmined, hevent, -⟩ := (adviceRoute_status hbody hremember).mp hok
    obtain ⟨vec, hvec, hid, hadd⟩ := remember_eq_ok.mp hremember
    obtain ⟨-, -, hmemory⟩ := MemoryService.add_eq_some_iff.mp hadd
    obtain ⟨payload, hpayload, hlen, hpub⟩ := published hC hrun hmined hevent
    refine ⟨payload, tx, r.1, event, r.2, hpayload, ?_, hpub, ?_, fun hdefault => ?_,
      fun id hgiven hne => id_of_given hid hgiven hne⟩
    · rw [publish, hremember]
      simp only [record_eq_ok.mpr ⟨receipt, hmined, hevent⟩]
      rfl
    · rw [hmemory, Dict.get?_set, if_pos rfl]
      rfl
    · obtain ⟨text, htext, hpython, hweb⟩ :=
        read_payload hC hD hD' N decodeInt hpayload hlen hdefault
      exact ⟨text, htext, hpython, hweb, id_of_none hC htext hid⟩

end RegistryService

/-! ## A published advice -/

namespace OnChain.Demo

open Memory.MemoryService.Demo RegistryService

/-- The decoder of Solidity, with the strings read as UTF-8. -/
def decodeAdvice : AdviceDecoder := fun b => do
  let first ← sizeAt b 0
  let second ← sizeAt b 32
  let third ← sizeAt b 64
  let reasoning ← (bytesAt b first).bind utf8Decode
  let symbol ← (bytesAt b second).bind utf8Decode
  let stance ← (bytesAt b third).bind utf8Decode
  return (reasoning, symbol, stance, slice b 96 32)

def decodeAction (b : Bytes) : Option (Bytes × ℕ) := do
  let offset ← sizeAt b 0
  let timestamp ← wordAt b 32
  let payload ← bytesAt b offset
  return (payload, timestamp)

theorem readsAdvice : ReadsAdvice decodeAdvice := by
  intro r s t reasoning symbol stance hash hr hs ht hhash hlen
  generalize hhead : word 128 ++ word (128 + (bytes reasoning).length) ++
    word (128 + (bytes reasoning).length + (bytes symbol).length) ++ hash = head
  have heq : adviceBytes reasoning symbol stance hash =
      head ++ (bytes reasoning ++ (bytes symbol ++ bytes stance)) := by
    rw [adviceBytes, hhead, List.append_assoc (bytes reasoning)]
  have hheadlen : head.length = 128 := by
    rw [← hhead]
    simp only [List.length_append, length_word, hhash]
  have hsizes : 128 + (bytes reasoning).length + (bytes symbol).length +
      (bytes stance).length < 2 ^ 64 := by
    rw [heq, List.length_append, hheadlen, List.length_append, List.length_append] at hlen
    omega
  have hinner (b : Bytes) : b.length ≤ (bytes b).length := by
    rw [bytes, List.length_append, List.length_append]
    omega
  have hreasoning := hinner reasoning
  have hsymbol := hinner symbol
  have hstance := hinner stance
  have h₁ : sizeAt (adviceBytes reasoning symbol stance hash) 0 = some 128 := by
    simp only [adviceBytes, List.append_assoc]
    exact sizeAt_word (by decide)
  have h₂ : sizeAt (adviceBytes reasoning symbol stance hash) 32 =
      some (128 + (bytes reasoning).length) := by
    simp only [adviceBytes, List.append_assoc]
    rw [sizeAt_append (by simp), length_word, Nat.sub_self, sizeAt_word (by omega)]
  have h₃ : sizeAt (adviceBytes reasoning symbol stance hash) 64 =
      some (128 + (bytes reasoning).length + (bytes symbol).length) := by
    simp only [adviceBytes, List.append_assoc]
    rw [sizeAt_append (by simp), length_word, sizeAt_append (by simp), length_word, Nat.sub_self,
      sizeAt_word (by omega)]
  have h₄ : bytesAt (adviceBytes reasoning symbol stance hash) 128 = some reasoning := by
    rw [heq, bytesAt_append (by omega), hheadlen, Nat.sub_self, bytesAt_bytes (by omega)]
  have h₅ : bytesAt (adviceBytes reasoning symbol stance hash) (128 + (bytes reasoning).length) =
      some symbol := by
    rw [heq, bytesAt_append (by omega), hheadlen, Nat.add_sub_cancel_left,
      bytesAt_append (le_refl _), Nat.sub_self, bytesAt_bytes (by omega)]
  have h₆ : bytesAt (adviceBytes reasoning symbol stance hash)
      (128 + (bytes reasoning).length + (bytes symbol).length) = some stance := by
    rw [heq, Nat.add_assoc, bytesAt_append (by omega), hheadlen, Nat.add_sub_cancel_left,
      bytesAt_append (by omega), Nat.add_sub_cancel_left, bytesAt_append (le_refl _), Nat.sub_self,
      bytesAt_bytes_end (by omega)]
  have h₇ : slice (adviceBytes reasoning symbol stance hash) 96 32 = hash := by
    simp only [adviceBytes, List.append_assoc]
    rw [slice_append (by simp), length_word, slice_append (by simp), length_word,
      slice_append (by simp), length_word, slice_left hhash]
  rw [decodeAdvice, h₁, h₂, h₃]
  simp only [Option.bind_eq_bind, Option.bind_some, h₄, h₅, h₆, utf8Decode_utf8 hr,
    utf8Decode_utf8 hs, utf8Decode_utf8 ht, Option.pure_def, h₇]

theorem decodeAction_actionData {payload : Bytes} {timestamp : ℕ} (hlen : payload.length < 2 ^ 64)
    (ht : timestamp < 2 ^ 256) :
    decodeAction (actionData payload timestamp) = some (payload, timestamp) := by
  have hoffset : sizeAt (actionData payload timestamp) 0 = some 64 := sizeAt_word (by decide)
  have htime : wordAt (actionData payload timestamp) 32 = some timestamp := by
    rw [actionData, wordAt_append (by simp), length_word, Nat.sub_self, wordAt_word ht]
  have hpayload : bytesAt (actionData payload timestamp) 64 = some payload := by
    rw [actionData, bytesAt_append (by simp), length_word, bytesAt_append (by simp), length_word,
      Nat.sub_self, bytesAt_bytes_end hlen]
  rw [decodeAction, hoffset, htime]
  simp only [Option.bind_eq_bind, Option.bind_some, hpayload, Option.pure_def]

/-- What the payload of the advice is. -/
def reasoning : Bytes := [98, 117, 121]

def published : Bytes :=
  adviceBytes reasoning [83, 79, 76] [108, 111, 110, 103] (keccak256 reasoning)

/-- The owner of the identity 7 registers an agent and publishes. -/
def calls : List Event :=
  [⟨.of 0xA1 3, AgentRegistry.Demo.answers, .register 7 9 0xBB [104]⟩,
    ⟨.of 0xA1 4, AgentRegistry.Demo.answers, .recordAction 1 0 published⟩]

def ran (n : ℕ) : State := (calls.take n).foldl (transact exec) .initial

def step : Trace.Step State Event :=
  ⟨ran 1, ⟨.of 0xA1 4, AgentRegistry.Demo.answers, .recordAction 1 0 published⟩, ran 2⟩

def trace : List (Trace.Step State Event) :=
  [⟨ran 0, ⟨.of 0xA1 3, AgentRegistry.Demo.answers, .register 7 9 0xBB [104]⟩, ran 1⟩, step]

theorem run_trace : Run Step .initial trace (ran 2) :=
  (Run.nil.snoc _ ⟨trivial, rfl⟩).snoc _ ⟨trivial, rfl⟩

def receipt : Receipt := ⟨some (lit "0x1"), some [render (lit "0xA") (emitted step)]⟩

def advice : Advice Flt where
  trace := lit "buy"
  vec := some [.finite .minusOne]
  traceId := none
  kind := lit "working"
  payload := none
  symbol := some (lit "sol")
  stance := some (lit "long")

/-- A service on a node that accepts what the contract accepted. -/
def service : RegistryService Flt Flt where
  numerics := numerics
  packages := ⟨fun _ => none, fun _ => none, keccak256⟩
  unicode := .ascii
  upper s := if s = lit "sol" then lit "SOL" else s
  repr s := s
  str _ := []
  surrogates := []
  advice _ := .ok advice
  registryAddr := lit "0xa"
  signAndBroadcast _ data :=
    if data.length < 2 ^ 64 ∧ decodeCall data = some (.recordAction 1 0 published) then
      .ok (lit "0x1")
    else .error []
  polls _ := [.ok none, .ok (some receipt)]
  abiDecode := decodeAction

theorem lower_eq :
    service.unicode.lower (lit "0xA") = service.unicode.lower service.registryAddr := by
  decide

theorem chain : Chain service trace where
  keccak := rfl
  decode := decodeAction_actionData
  size h := by
    simp only [service] at h
    split at h
    · next hsent => exact hsent.1
    · cases h
  mined := by
    intro data tx r hsend hpoll _
    simp only [service] at hsend
    split at hsend
    · next hsent =>
      have hr : r = receipt := by
        simpa [service] using hpoll
      rw [hr]
      exact ⟨step, by simp [trace], hsent.2, lit "0xA", lower_eq, rfl⟩
    · cases hsend

theorem payload_advice : service.payload advice = .ok published := by
  have htext : utf8 (lit "buy") = some reasoning := by decide
  have hsymbol : utf8 (service.upper (lit "sol")) = some [83, 79, 76] := by decide
  have hstance : utf8 (if lit "long" ∈ adviceStances then lit "long" else lit "neutral") =
      some [108, 111, 110, 103] := by decide
  have hencode : service.encodeAdvicePayload (lit "buy") (lit "sol") (lit "long") =
      some published := by
    simp only [encodeAdvicePayload, htext, hsymbol, hstance, Option.bind_eq_bind, Option.bind_some,
      Option.pure_def]
    rfl
  rw [payload]
  exact orFail_eq_ok.mpr hencode

/-- The calldata of the advice. -/
def calldata : Bytes := recordActionSelector ++ AgentRegistry.encodeRecordAction 1 0 published

theorem calldata_short : calldata.length < 2 ^ 64 ∧ published.length < 2 ^ 64 := by decide +kernel

theorem mined_advice : service.Mined 1 advice (lit "0x1") receipt where
  sent := by
    have hread : Python.fromHex (Python.remove0x (Python.hex0x calldata)) = some calldata := by
      rw [Python.remove0x_hex0x, Python.fromHex_hex]
    have hcall : decodeCall calldata = some (.recordAction 1 0 published) :=
      decodeCall_recordAction (by decide) (by decide) calldata_short.2
    have hsend : service.signAndBroadcast service.registryAddr calldata = .ok (lit "0x1") :=
      if_pos ⟨calldata_short.1, hcall⟩
    refine ⟨published, Python.hex0x calldata, payload_advice, ?_, ?_⟩
    · exact encodeRecordAction_eq rfl (by decide) published
    · rw [castSend, Python.bind_eq_ok]
      exact ⟨calldata, orFail_eq_ok.mpr hread, by rw [hsend]; rfl⟩
  received := rfl
  status := orFail_eq_ok.mpr (by decide)

/-- The id of the advice, from the hash of its trace. -/
def adviceId : Str := lit "advice-6ed88e868af0a198"

theorem id_advice : advice.id service.packages = some adviceId := by decide +kernel

theorem remembered : ∃ memory,
    service.remember pinnedAtOnce now 1 advice = .ok (adviceId, memory) := by
  have hkind : advice.kind ∈ validKinds := by decide
  exact ⟨_, remember_eq_ok.mpr ⟨[.minusOne], rfl, id_advice,
    MemoryService.add_eq_some_iff.mpr ⟨hkind, rfl, rfl⟩⟩⟩

/-- The advice is confirmed. -/
theorem confirmed : (service.adviceRoute pinnedAtOnce now 1 .null).2.status = 200 := by
  obtain ⟨memory, hremember⟩ := remembered
  have hevent : service.findAgentAction receipt =
      .ok (actionJson 1 0 published 4) :=
    findAction_render chain lower_eq (by decide) calldata_short.2 (by decide)
  refine (adviceRoute_status rfl hremember).mpr
    ⟨lit "0x1", receipt, _, mined_advice, hevent, fun c hc => ?_, fun c hc => ?_⟩ <;>
    exact Json.isScalar_of_lt (Json.printable_lit (by decide) c hc).2

/-- The advice is the action 1 of the contract's events, and reads as it was given; the memory has
it under the id from its hash. -/
theorem advice_published : ∃ event memory, Published service trace (ran 2) 1 published event ∧
    (service.publish pinnedAtOnce now 1 advice).1 = memory ∧
    (memory.entries.get? adviceId).map (·.payload) = some (advicePayload 1 (lit "buy")) ∧
    (decodeAdvicePayload decodeAdvice published).map (·.symbol) = some (lit "SOL") ∧
    ((decodeActionTrace .exact decodeAdvice (fun _ => none) 0
      (Python.hex0x published)).advice).map (·.stance) = some (lit "long") := by
  obtain ⟨payload, tx, traceId, event, memory, hpayload, hpublish, hpublished, hentry, hread, -⟩ :=
    published_on_chain chain run_trace readsAdvice readsAdvice .exact (fun _ => none) rfl confirmed
  cases payload_advice.symm.trans hpayload
  obtain ⟨text, htext, hpython, hweb, hid⟩ := hread rfl
  have htraceId : traceId = adviceId := by
    have hderived := id_of_none chain htext id_advice rfl
    rw [hid rfl, hderived]
  rw [htraceId] at hentry
  refine ⟨event, memory, hpublished, congrArg Prod.fst hpublish, hentry, ?_, ?_⟩
  · rw [hpython]
    rfl
  · rw [hweb]
    rfl

end OnChain.Demo

end Registry
end Arcane
