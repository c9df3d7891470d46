import Arcane.DarkPool.Effect
import Arcane.Memory.Live
import Arcane.Memory.PinnedRoot
import Arcane.Registry.Publish

/-!
# A failed advice and the memory

`publish_advice` stores the advice before it decodes the payload, signs and sends.

* `publish_memory`: the memory that it leaves is the one of its `memory.add`, whatever follows.
* `allOrNothing_iff`: an error leaves the entries as they were exactly when the memory refuses the
  advice, or nothing after `memory.add` fails, or the memory held that very entry.
* `Demo.rule_lost`: a rule that a failed advice overwrites.
-/

namespace Arcane
namespace Registry

open Text Memory DarkPool

theorem orFail_eq_ok {α : Type} {f : Failure} {x : Option α} {a : α} :
    orFail f x = .ok a ↔ x = some a := by
  cases x <;> simp [orFail]

namespace RegistryService

variable {F E : Type} {R : RegistryService F E} {s memory : MemoryService F E} {now : Double F}
  {agentId : ℤ} {body : Advice F} {tx traceId : Str} {event : Json F} {vec : List E}

/-! ## The two halves -/

theorem remember_eq_ok : R.remember s now agentId body = .ok (traceId, memory) ↔
    ∃ vec, body.vector R.numerics R.packages s.dim = some vec ∧ body.id R.packages = some traceId ∧
      s.add R.numerics now traceId vec body.kind false
        (some (advicePayload agentId body.trace)) = some memory := by
  simp only [remember, Python.bind_eq_ok, orFail_eq_ok, pure, Except.pure, Except.ok.injEq,
    Prod.mk.injEq]
  constructor
  · rintro ⟨vec, hvec, id, hid, m, hm, rfl, rfl⟩
    exact ⟨vec, hvec, hid, hm⟩
  · rintro ⟨vec, hvec, hid, hm⟩
    exact ⟨vec, hvec, traceId, hid, memory, hm, rfl, rfl⟩

theorem record_eq_ok : R.record agentId body = .ok (tx, event) ↔
    ∃ receipt, R.Mined agentId body tx receipt ∧ R.findAgentAction receipt = .ok event := by
  simp only [record, Python.bind_eq_ok, orFail_eq_ok]
  constructor
  · rintro ⟨payload, hpayload, data, hdata, tx', hsend, receipt, hreceipt, status, hstatus, h⟩
    split at h
    · obtain ⟨_, herror, -⟩ := Python.bind_eq_ok.mp h
      cases herror
    · next hone =>
      obtain ⟨event', hevent, heq⟩ := Python.bind_eq_ok.mp h
      cases heq
      rw [not_not.mp hone] at hstatus
      exact ⟨receipt, ⟨⟨payload, data, hpayload, hdata, hsend⟩, hreceipt, hstatus⟩, hevent⟩
  · rintro ⟨receipt, ⟨⟨payload, data, hpayload, hdata, hsend⟩, hreceipt, hstatus⟩, hevent⟩
    refine ⟨payload, hpayload, data, hdata, tx, hsend, receipt, hreceipt, 1, hstatus, ?_⟩
    rw [if_neg (not_not_intro rfl), hevent]
    rfl

/-- The memory is that of the server's model of an advice. -/
theorem publish_memory : (R.publish s now agentId body).1 =
    (publishAdvice R.numerics R.packages s now agentId body.toAdviceBody).getD s := by
  have hmemory (memory : MemoryService F E) :
      publishAdvice R.numerics R.packages s now agentId body.toAdviceBody = some memory ↔
        ∃ traceId, R.remember s now agentId body = .ok (traceId, memory) := by
    simp only [publishAdvice, remember_eq_ok, Option.bind_eq_bind, Option.bind_eq_some_iff]
    constructor
    · rintro ⟨vec, hvec, traceId, hid, hadd⟩
      exact ⟨traceId, vec, hvec, hid, hadd⟩
    · rintro ⟨traceId, vec, hvec, hid, hadd⟩
      exact ⟨vec, hvec, traceId, hid, hadd⟩
  cases h : R.remember s now agentId body with
  | error f =>
    have hnone : publishAdvice R.numerics R.packages s now agentId body.toAdviceBody = none := by
      rw [Option.eq_none_iff_forall_ne_some]
      intro memory hsome
      obtain ⟨traceId, hok⟩ := (hmemory memory).mp hsome
      rw [h] at hok
      cases hok
    rw [publish, h, hnone]
    rfl
  | ok r =>
    rw [publish, h, (hmemory r.2).mpr ⟨r.1, h⟩]
    rfl

/-! ## The event -/

theorem isScalar_hexText (b : Bytes) : ∀ c ∈ lit "0x" ++ Python.hex b, IsScalar c := by
  intro c hc
  rcases List.mem_append.mp hc with hc | hc
  · exact Json.isScalar_of_lt (Json.printable_lit (by decide) c hc).2
  · exact Json.isScalar_of_lt (Python.isAscii_hex b c hc)

/-- It can be rendered. -/
def Renderable (v : Json F) : Prop := Json.Finite v ∧ Json.Scalar v

theorem renderable_topicNumber {topic : Option Str} (h : R.topicNumber topic = .ok event) :
    Renderable event := by
  cases topic with
  | none =>
    cases h
    exact ⟨trivial, trivial⟩
  | some topic =>
    rw [topicNumber] at h
    cases hn : R.int16 topic with
    | error f =>
      rw [hn] at h
      cases h
    | ok n =>
      rw [hn] at h
      cases h
      exact ⟨trivial, trivial⟩

theorem renderable_decodeAction {indexed : List Str} {data : Option Str}
    (h : R.decodeAction indexed data = .ok event) : Renderable event := by
  simp only [decodeAction, Python.bind_eq_ok] at h
  obtain ⟨agentId, hid, kind, hkind, bytes, -, r, -, heq⟩ := h
  cases heq
  have hvalue : ∀ m ∈ [(lit "agent_id", agentId), (lit "kind", kind),
      (lit "payload", .str (lit "0x" ++ Python.hex r.1)), (lit "timestamp", .int r.2)],
      Renderable m.2 := by
    simp only [List.forall_mem_cons]
    exact ⟨renderable_topicNumber hid, renderable_topicNumber hkind, ⟨trivial, isScalar_hexText _⟩,
      ⟨trivial, trivial⟩, by simp⟩
  exact ⟨Json.all_obj.mpr ⟨trivial, fun m hm => (hvalue m hm).1⟩,
    Json.scalar_obj ["agent_id", "kind", "payload", "timestamp"] rfl (by decide)
      fun m hm => (hvalue m hm).2⟩

theorem renderable_findAction {logs : List EventLog} (h : R.findAction logs = .ok event) :
    Renderable event := by
  induction logs with
  | nil =>
    cases h
    exact ⟨trivial, trivial⟩
  | cons log logs ih =>
    rw [findAction] at h
    split at h
    · exact ih h
    · split at h
      · exact ih h
      · split at h
        · exact ih h
        · exact renderable_decodeAction h

/-- A publication is rendered if its hash and trace id are. -/
theorem rendered_publishedContent [Json.FloatText F] {entries : ℕ} (h : Renderable event) :
    (rendered (publishedContent tx traceId entries event)).isSome ↔
      (∀ c ∈ tx, IsScalar c) ∧ ∀ c ∈ traceId, IsScalar c := by
  have hfinite : Json.Finite (publishedContent tx traceId entries event) := by
    refine Json.all_obj.mpr ⟨trivial, ?_⟩
    simp only [List.forall_mem_cons]
    exact ⟨trivial, trivial, trivial, h.1, by simp⟩
  rw [rendered_isSome]
  constructor
  · rintro ⟨-, hscalar⟩
    have hmem := (Json.all_obj.mp hscalar).2
    simp only [List.forall_mem_cons] at hmem
    exact ⟨hmem.1, hmem.2.1⟩
  · rintro ⟨htx, hid⟩
    refine ⟨hfinite, Json.scalar_obj ["tx_hash", "trace_id", "memory_entries", "event"] rfl
      (by decide) ?_⟩
    simp only [List.forall_mem_cons]
    exact ⟨htx, hid, trivial, h.2, by simp⟩

/-! ## The answer -/

/-- The entry that an advice is stored as. -/
def adviceEntry (R : RegistryService F E) (s : MemoryService F E) (now : Double F) (agentId : ℤ)
    (body : Advice F) (vec : List E) (traceId : Str) : Entry F :=
  s.newEntry R.numerics now traceId vec body.kind false (some (advicePayload agentId body.trace))

/-- Every step after `memory.add` goes through. -/
def Completes (R : RegistryService F E) (agentId : ℤ) (body : Advice F) (traceId : Str) : Prop :=
  ∃ tx receipt event, R.Mined agentId body tx receipt ∧ R.findAgentAction receipt = .ok event ∧
    (∀ c ∈ tx, IsScalar c) ∧ ∀ c ∈ traceId, IsScalar c

variable [Json.FloatText F] {json : Json F}

theorem status_badRequest (text : Str) : (badRequest (F := F) text).status ≠ 200 :=
  status_jsonResponse_ne (by decide) _ none

theorem adviceRoute_stored (hbody : R.advice json = .ok body)
    (h : R.remember s now agentId body = .ok (traceId, memory)) :
    (R.adviceRoute s now agentId json).1 = memory := by
  simp only [adviceRoute, hbody, publish, h]

theorem adviceRoute_refused (hbody : R.advice json = .ok body) {f : Failure}
    (h : R.remember s now agentId body = .error f) :
    (R.adviceRoute s now agentId json).1 = s ∧
      (R.adviceRoute s now agentId json).2.status ≠ 200 := by
  rw [adviceRoute, hbody]
  simp only [publish, h]
  exact ⟨trivial, status_badRequest _⟩

theorem adviceRoute_status (hbody : R.advice json = .ok body)
    (h : R.remember s now agentId body = .ok (traceId, memory)) :
    (R.adviceRoute s now agentId json).2.status = 200 ↔ R.Completes agentId body traceId := by
  rw [adviceRoute, hbody]
  simp only [publish, h]
  cases hrecord : R.record agentId body with
  | error f =>
    refine iff_of_false (status_badRequest _) ?_
    rintro ⟨tx, receipt, event, hmined, hevent, -⟩
    rw [record_eq_ok.mpr ⟨receipt, hmined, hevent⟩] at hrecord
    cases hrecord
  | ok r =>
    obtain ⟨receipt, hmined, hevent⟩ := record_eq_ok.mp hrecord
    have hcompletes : R.Completes agentId body traceId ↔
        (rendered (publishedContent r.1 traceId memory.entries.items.length r.2)).isSome := by
      rw [rendered_publishedContent (renderable_findAction hevent)]
      constructor
      · rintro ⟨tx, receipt', event, hmined', hevent', htx, hid⟩
        rw [record_eq_ok.mpr ⟨receipt', hmined', hevent'⟩] at hrecord
        cases hrecord
        exact ⟨htx, hid⟩
      · rintro ⟨htx, hid⟩
        exact ⟨r.1, receipt, r.2, hmined, hevent, htx, hid⟩
    rw [hcompletes]
    simp only [Except.map]
    cases rendered (publishedContent r.1 traceId memory.entries.items.length r.2) with
    | none => exact iff_of_false (status_badRequest _) Bool.false_ne_true
    | some bytes => exact iff_of_true rfl rfl

/-- What all-or-nothing means for a request: the entries are those of before, or one of them is the
advice that was mined. -/
structure AllOrNothing (R : RegistryService F E) (s : MemoryService F E) (now : Double F)
    (agentId : ℤ) (json : Json F) : Prop where
  failed : (R.adviceRoute s now agentId json).2.status ≠ 200 →
    (R.adviceRoute s now agentId json).1.entries = s.entries
  published : (R.adviceRoute s now agentId json).2.status = 200 →
    ∃ body vec traceId tx receipt, R.advice json = .ok body ∧
      body.vector R.numerics R.packages s.dim = some vec ∧ body.id R.packages = some traceId ∧
      (R.adviceRoute s now agentId json).1.entries =
        s.entries.set traceId (R.adviceEntry s now agentId body vec traceId) ∧
      R.Mined agentId body tx receipt

/-- All or nothing, exactly when the memory refuses the advice, or what follows goes through, or the
entry was there. -/
theorem allOrNothing_iff : R.AllOrNothing s now agentId json ↔
    ∀ body vec traceId, R.advice json = .ok body →
      body.vector R.numerics R.packages s.dim = some vec → body.id R.packages = some traceId →
      body.kind ∈ validKinds → vec.length = s.dim →
      R.Completes agentId body traceId ∨
        s.entries.get? traceId = some (R.adviceEntry s now agentId body vec traceId) := by
  constructor
  · intro h body vec traceId hbody hvec hid hkind hlen
    have hadd : s.add R.numerics now traceId vec body.kind false
        (some (advicePayload agentId body.trace)) = some { s.ensureCentroid R.numerics with
          entries := s.entries.set traceId (R.adviceEntry s now agentId body vec traceId) } :=
      MemoryService.add_eq_some_iff.mpr ⟨hkind, hlen, rfl⟩
    have hok := remember_eq_ok.mpr ⟨vec, hvec, hid, hadd⟩
    by_cases hcompletes : R.Completes agentId body traceId
    · exact .inl hcompletes
    · have hentries := h.failed (mt (adviceRoute_status hbody hok).mp hcompletes)
      rw [adviceRoute_stored hbody hok] at hentries
      refine .inr ?_
      rw [← hentries, Dict.get?_set, if_pos rfl]
  · intro h
    cases hbody : R.advice json with
    | error content =>
      have hroute : R.adviceRoute s now agentId json = (s, ⟨422, none, content⟩) := by
        rw [adviceRoute, hbody]
      refine ⟨fun _ => by rw [hroute], fun hstatus => ?_⟩
      rw [hroute] at hstatus
      cases hstatus
    | ok body =>
      cases hremember : R.remember s now agentId body with
      | error f =>
        obtain ⟨hmemory, hstatus⟩ := adviceRoute_refused hbody hremember
        exact ⟨fun _ => by rw [hmemory], fun h => absurd h hstatus⟩
      | ok r =>
        obtain ⟨vec, hvec, hid, hadd⟩ := remember_eq_ok.mp hremember
        obtain ⟨hkind, hlen, hmemory⟩ := MemoryService.add_eq_some_iff.mp hadd
        have hentries : (R.adviceRoute s now agentId json).1.entries =
            s.entries.set r.1 (R.adviceEntry s now agentId body vec r.1) := by
          rw [adviceRoute_stored hbody hremember, hmemory, adviceEntry]
        have hstatus : (R.adviceRoute s now agentId json).2.status = 200 ↔
            R.Completes agentId body r.1 := adviceRoute_status hbody hremember
        constructor
        · intro hfailed
          have hheld := (h body vec r.1 hbody hvec hid hkind hlen).resolve_left
            (mt hstatus.mpr hfailed)
          rw [hentries, Dict.set_eq_self hheld]
        · intro hok
          obtain ⟨tx, receipt, event, hmined, -⟩ := hstatus.mp hok
          exact ⟨body, vec, r.1, tx, receipt, hbody, hvec, hid, hentries, hmined⟩

end RegistryService

namespace Demo

open Memory.MemoryService.Demo RegistryService

/-- `{"trace": .., "vec": [..], "trace_id": .., "payload": ..}`. -/
def advice : Json Flt → Except Bytes (Advice Flt)
  | .obj [(_, .str trace), (_, .arr [.float x]), (_, .str traceId), (_, .str payload)] => .ok
    { trace := trace
      vec := some [x]
      traceId := some traceId
      kind := lit "working"
      payload := some payload
      symbol := none
      stance := none }
  | _ => .error []

/-- A node that mines every call. -/
def service : RegistryService Flt Flt where
  numerics := numerics
  packages := ⟨fun _ => none, fun _ => none, id⟩
  unicode := .ascii
  upper s := s
  repr s := s
  str _ := []
  surrogates := []
  advice := advice
  registryAddr := lit "0xa"
  signAndBroadcast _ _ := .ok (lit "0x1")
  polls _ := [.ok none, .ok (some ⟨some (lit "0x1"), some []⟩)]
  abiDecode _ := none

/-- An advice under the id of the rule. -/
def request (payload : String) : Json Flt :=
  .obj [(lit "trace", .str (lit "buy")), (lit "vec", .arr [.float (.finite .minusOne)]),
    (lit "trace_id", .str (lit "r")), (lit "payload", .str (lit payload))]

def body (payload : String) : Advice Flt where
  trace := lit "buy"
  vec := some [.finite .minusOne]
  traceId := some (lit "r")
  kind := lit "working"
  payload := some (lit payload)
  symbol := none
  stance := none

theorem not_completes : ¬ service.Completes 1 (body "0x0") (lit "r") := by
  rintro ⟨tx, receipt, event, ⟨⟨payload, data, hpayload, -⟩, -, -⟩, -⟩
  have hodd : Python.fromHex (Python.remove0x (lit "0x0")) = none := by decide
  rw [RegistryService.payload] at hpayload
  simp only [body, hodd, orFail] at hpayload
  cases hpayload

theorem remembered : ∃ memory,
    service.remember pinnedAtOnce now 1 (body "0x0") = .ok (lit "r", memory) ∧
      memory.entries = pinnedAtOnce.entries.set (lit "r")
        (service.adviceEntry pinnedAtOnce now 1 (body "0x0") [.minusOne] (lit "r")) := by
  have hkind : (body "0x0").kind ∈ validKinds := by decide
  have hadd : pinnedAtOnce.add numerics now (lit "r") [.minusOne] (body "0x0").kind false
      (some (advicePayload 1 (body "0x0").trace)) = some
        { pinnedAtOnce.ensureCentroid numerics with
          entries := pinnedAtOnce.entries.set (lit "r")
            (service.adviceEntry pinnedAtOnce now 1 (body "0x0") [.minusOne] (lit "r")) } :=
    MemoryService.add_eq_some_iff.mpr ⟨hkind, rfl, rfl⟩
  exact ⟨_, remember_eq_ok.mpr ⟨[.minusOne], rfl, rfl, hadd⟩, rfl⟩

/-- Half a byte of payload, and the rule of that id is gone. -/
theorem rule_lost : ¬ service.AllOrNothing pinnedAtOnce now 1 (request "0x0") := by
  intro h
  obtain ⟨memory, hremember, hentries⟩ := remembered
  have hbody : service.advice (request "0x0") = .ok (body "0x0") := rfl
  have hsame := h.failed (mt (adviceRoute_status hbody hremember).mp not_completes)
  rw [adviceRoute_stored hbody hremember, hentries] at hsame
  have hpinned : ((pinnedAtOnce.entries.get? (lit "r")).map (·.pinned)) = some true := by
    decide +kernel
  rw [← hsame, Dict.get?_set, if_pos rfl] at hpinned
  exact absurd hpinned (by decide)

end Demo
end Registry
end Arcane
