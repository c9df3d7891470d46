import Arcane.Registry.OnChain
import Arcane.Web.Chain
import Arcane.Web.Stream

/-!
# The live feed of the arena

`useLiveFeed` of `web/apps/web/src/lib/arena.ts`: the `AgentAction` events of the registry, from one
scan of the past and a poll every four seconds, whichever answers first.

* `useLiveFeed_eq`: the feed is a stream of the actions in the chain.
* `live_feed_exact`: what it shows of the registry that the calls have run.
-/

namespace Arcane
namespace Web

open Text Memory Evm AgentRegistry Registry Trace

/-- An `AgentAction` event as viem decodes it. -/
structure RawActionLog where
  agentId : Option ℕ
  kind : Option ℕ
  payload : Option Str
  timestamp : Option ℕ
  transactionHash : Option Str
  blockNumber : Option ℕ
  logIndex : Option ℕ

structure FeedEvent (D : Type) where
  id : Str
  agentId : D
  kind : ℕ
  payload : Str
  timestamp : ℕ
  txHash : Str
  blockNumber : ℕ
  logIndex : ℕ
  trace : ActionTrace D
  deriving DecidableEq

section Hook

variable {D : Type} (N : Doubles D) (decode : AdviceDecoder) (decodeInt : Bytes → Option ℤ)

def toFeedEvent (log : RawActionLog) : FeedEvent D :=
  let blockNumber := log.blockNumber.getD 0
  let logIndex := log.logIndex.getD 0
  let kind := log.kind.getD 0
  let payload := log.payload.getD (lit "0x")
  { id := eventId blockNumber logIndex
    agentId := N.ofInt (log.agentId.getD 0)
    kind
    payload
    timestamp := log.timestamp.getD 0
    txHash := log.transactionHash.getD (lit "0x")
    blockNumber
    logIndex
    trace := decodeActionTrace N decode decodeInt kind payload }

/-- The comparison that the events of a batch are sorted by. -/
def compareEvents (a b : FeedEvent D) : ℤ :=
  if a.blockNumber = b.blockNumber then (b.logIndex : ℤ) - a.logIndex
  else (b.blockNumber : ℤ) - a.blockNumber

/-- `ingest`. -/
def ingest (cap : ℕ) (feed : Feed (FeedEvent D) Str) (incoming : List (FeedEvent D)) :
    Feed (FeedEvent D) Str :=
  Feed.ingest FeedEvent.id (fun fresh => fresh.mergeSort fun a b => compareEvents a b ≤ 0) cap feed
    incoming

/-- The events that the hook shows after these batches of logs. -/
def useLiveFeed (cap : ℕ) (batches : List (List RawActionLog)) : List (FeedEvent D) :=
  (batches.foldl (fun feed logs => ingest cap feed (logs.map (toFeedEvent N decode decodeInt)))
    .empty).events

end Hook

/-! ## The actions in the chain -/

/-- What an `AgentAction` event tells. -/
structure Action where
  agentId : ℕ
  kind : UInt8
  payload : Bytes
  timestamp : ℕ
  deriving DecidableEq

def actionOf : Log → Option Action
  | .agentAction agentId kind payload timestamp => some ⟨agentId, kind, payload, timestamp⟩
  | _ => none

/-- The actions among the events of the registry. -/
def actions (chain : List (Placed Log)) : List (Placed Action) :=
  chain.filterMap fun p => (actionOf p.log).map fun x => ⟨p.block, p.logIndex, p.transactionHash, x⟩

/-- An action as the node answers it. -/
def rawAction (p : Placed Action) : RawActionLog where
  agentId := some p.log.agentId
  kind := some p.log.kind.toNat
  payload := some (Python.hex0x p.log.payload)
  timestamp := some p.log.timestamp
  transactionHash := some p.transactionHash
  blockNumber := some p.block
  logIndex := some p.logIndex

/-- What a scan or a poll delivers of the actions in some blocks. -/
def getActions (chain : List (Placed Log)) (blocks : ℕ → Bool) : List RawActionLog :=
  (batch (actions chain) blocks).map rawAction

/-- Later actions are newer. -/
def newer (p q : Placed Action) : Bool :=
  if p.block = q.block then q.logIndex ≤ p.logIndex else q.block ≤ p.block

theorem newestFirst_newer : NewestFirst newer where
  trans := by
    unfold newer
    intro p q r
    split <;> split <;> split <;> simp only [decide_eq_true_eq] <;> omega
  total := by
    unfold newer
    intro p q
    rw [Bool.or_eq_true]
    split <;> split <;> simp only [decide_eq_true_eq] <;> omega
  later := by
    unfold newer
    intro p q h
    rw [if_neg (by omega), if_neg (by omega)]
    exact ⟨decide_eq_true (by omega), decide_eq_false (by omega)⟩

/-- The actions of a chain from the newest to the oldest. -/
theorem mergeSort_newer {l : List (Placed Action)} (h : l.Pairwise Placed.Older) :
    l.mergeSort newer = l.reverse := by
  have hreverse : l.reverse.Pairwise (Shown newer) := by
    rw [List.pairwise_reverse]
    refine h.imp fun {p q} hpq => ?_
    have hqp : newer q p = true ∧ newer p q = false := by
      unfold Placed.Older at hpq
      unfold newer
      split <;> split <;> simp only [decide_eq_true_eq, decide_eq_false_iff_not] <;> omega
    exact ⟨hqp.1, fun hle => absurd (hqp.2.symm.trans hle) (by decide)⟩
  refine ((List.mergeSort_perm l newer).trans (List.reverse_perm l).symm).eq_of_pairwise ?_
    (pairwise_sorted newestFirst_newer h) hreverse
  intro p q _ _ hpq hqp
  exact absurd hqp (Std.Asymm.asymm _ _ hpq)

section

variable {D : Type} {N : Doubles D} {decode : AdviceDecoder} {decodeInt : Bytes → Option ℤ}
  {chain : List (Placed Log)} {cap : ℕ} {deliveries : List (ℕ → Bool)} {p q : Placed Action}

variable (N decode decodeInt) in
/-- The event of an action. -/
def event (p : Placed Action) : FeedEvent D := toFeedEvent N decode decodeInt (rawAction p)

theorem compareEvents_event (p q : Placed Action) :
    decide (compareEvents (event N decode decodeInt p) (event N decode decodeInt q) ≤ 0) =
      newer p q := by
  simp only [compareEvents, event, toFeedEvent, rawAction, Option.getD_some, newer]
  split
  · exact decide_eq_decide.mpr (by omega)
  · exact decide_eq_decide.mpr (by omega)

theorem useLiveFeed_eq (cap : ℕ) (chain : List (Placed Log)) (deliveries : List (ℕ → Bool)) :
    useLiveFeed N decode decodeInt cap (deliveries.map (getActions chain)) =
      (stream newer (actions chain) cap deliveries).map (event N decode decodeInt) := by
  rw [← run_stream FeedEvent.id (fun a b => compareEvents a b ≤ 0) (fun _ => rfl)
    compareEvents_event, useLiveFeed, Feed.run, List.foldl_map, List.foldl_map]
  simp only [getActions, List.map_map]
  rfl

/-! ## What the feed shows -/

/-- The event is that of an accepted call of the agent's operator. -/
structure Recorded {D : Type} (N : Doubles D) (decode : AdviceDecoder)
    (decodeInt : Bytes → Option ℤ) (st : Trace.Step State Event) (s : State) (e : FeedEvent D) :
    Prop where
  call : ∃ (agentId : ℕ) (kind : UInt8) (payload : Bytes),
    st.ev.call = .recordAction agentId kind payload ∧ e.agentId = N.ofInt agentId ∧
    e.kind = kind.toNat ∧ e.payload = Python.hex0x payload ∧
    st.ev.msg.sender = (s.agents agentId).operator
  time : e.timestamp = st.ev.msg.timestamp
  trace : e.trace = decodeActionTrace N decode decodeInt e.kind e.payload

/-- What the feed shows of the registry that the calls `tr` have run to the state `s`, with the
events in `chain`. `feed` gives what it shows after any deliveries. -/
structure LiveFeedExact {D : Type} (N : Doubles D) (decode : AdviceDecoder)
    (decodeInt : Bytes → Option ℤ) (tr : List (Trace.Step State Event)) (s : State)
    (chain : List (Placed Log)) (cap : ℕ) (feed : List (ℕ → Bool) → List (FeedEvent D))
    (deliveries : List (ℕ → Bool)) : Prop where
  ids : ((feed deliveries).map (·.id)).Nodup
  recorded : ∀ e ∈ feed deliveries, Delivered deliveries e.blockNumber ∧
    ∃ st ∈ tr, Recorded N decode decodeInt st s e
  /-- Nothing that was delivered is missing while there is room. -/
  length : (feed deliveries).length =
    min cap (batch (actions chain) (Delivered deliveries)).length
  /-- Deliveries in order show the newest actions, the newest first. -/
  newest : InOrder deliveries → feed deliveries =
    ((batch (actions chain) (Delivered deliveries)).reverse.take cap).map (event N decode decodeInt)
  /-- What is pushed out never comes back. -/
  gone : ∀ p ∈ actions chain, Delivered deliveries p.block →
    event N decode decodeInt p ∉ feed deliveries →
    ∀ more, event N decode decodeInt p ∉ feed (deliveries ++ more)
  /-- A late scan of the past with enough actions pushes out all newer ones. -/
  full : ∀ blocks,
    cap ≤ (batch (actions chain) fun b => blocks b && !Delivered deliveries b).length →
    ∀ e ∈ feed (deliveries ++ [blocks]), blocks e.blockNumber

theorem older_actions (hchain : chain.Pairwise Placed.Older) :
    (actions chain).Pairwise Placed.Older :=
  older_placedEvents actionOf hchain

/-- An action in the chain is one of the events of the registry. -/
theorem log_of_mem_actions (hp : p ∈ actions chain) :
    Log.agentAction p.log.agentId p.log.kind p.log.payload p.log.timestamp ∈
      chain.map (·.log) := by
  obtain ⟨placed, hplaced, hmap⟩ := List.mem_filterMap.mp hp
  obtain ⟨x, hx, rfl⟩ := Option.map_eq_some_iff.mp hmap
  refine List.mem_map.mpr ⟨placed, hplaced, ?_⟩
  unfold actionOf at hx
  split at hx
  · next hlog =>
    cases hx
    exact hlog
  · cases hx

theorem event_inj (hchain : chain.Pairwise Placed.Older) (hp : p ∈ actions chain)
    (hq : q ∈ actions chain) (h : event N decode decodeInt p = event N decode decodeInt q) :
    p = q :=
  eq_of_key_eq (older_actions hchain) hp hq (congrArg FeedEvent.id h)

/-- After any deliveries, in any order and with any overlap, the feed shows no action twice, none
that its operator did not record, and as many as it has room for. Of deliveries in order it shows
the newest. It forgets for good what it pushes out, even if that is newer than what it shows. -/
theorem live_feed_exact {tr : List (Trace.Step State Event)} {s : State}
    (hrun : Run Step .initial tr s) (hlogs : chain.map (·.log) = s.logs)
    (hchain : chain.Pairwise Placed.Older) (N : Doubles D) (decode : AdviceDecoder)
    (decodeInt : Bytes → Option ℤ) (cap : ℕ) (deliveries : List (ℕ → Bool)) :
    LiveFeedExact N decode decodeInt tr s chain cap
      (fun deliveries => useLiveFeed N decode decodeInt cap (deliveries.map (getActions chain)))
      deliveries := by
  have hstream := stream_exact (older_actions hchain) newestFirst_newer cap deliveries
  constructor <;> simp only [useLiveFeed_eq]
  · rw [List.map_map]
    refine (List.nodup_map_iff_inj_on hstream.nodup).mpr fun p hp q hq h => ?_
    exact eq_of_key_eq (older_actions hchain) (hstream.mem p hp).1 (hstream.mem q hq).1 h
  · intro e he
    obtain ⟨p, hp, rfl⟩ := List.mem_map.mp he
    obtain ⟨hmem, hdelivered⟩ := hstream.mem p hp
    have hlog := log_of_mem_actions hmem
    rw [hlogs] at hlog
    obtain ⟨n, hn⟩ := List.getElem?_of_mem hlog
    obtain ⟨st, hst, hrecords⟩ := action_records hrun hn
    exact ⟨hdelivered, st, List.mem_of_getElem? hst,
      ⟨_, _, _, hrecords.call, rfl, rfl, rfl, hrecords.sender⟩, hrecords.time.symm, rfl⟩
  · rw [List.length_map, hstream.length]
  · intro horder
    have hsub : (batch (actions chain) (Delivered deliveries)).Pairwise Placed.Older :=
      (older_actions hchain).sublist List.filter_sublist
    rw [hstream.newest horder, mergeSort_newer hsub]
  · intro p hp hin hcut more hshown
    obtain ⟨q, hq, hevent⟩ := List.mem_map.mp hshown
    have hq' := (stream_exact (older_actions hchain) newestFirst_newer cap
      (deliveries ++ more)).mem q hq
    obtain rfl := event_inj hchain hq'.1 hp hevent
    exact hstream.gone q hp hin (fun h => hcut (List.mem_map_of_mem h)) more hq
  · intro blocks hfull e he
    obtain ⟨p, hp, rfl⟩ := List.mem_map.mp he
    exact hstream.full blocks hfull p hp

/-- The scan of the past delivers the actions in the blocks whose windows were answered. -/
theorem backfill_eq {fails : Windows.Window → Bool} {head lookback : ℤ} {fuel : ℕ}
    {ranges : List Windows.Window} (hchain : chain.Pairwise Placed.Older)
    (hranges : eventRanges fuel head lookback = some ranges) :
    scanEvents (fun w => (unreliable fails (actions chain) (fun p => (p.block : ℤ)) w).map
      (List.map rawAction)) ranges =
      getActions chain fun b => decide (Answered fails ranges b) := by
  have hsorted : (actions chain).Pairwise fun p q => (p.block : ℤ) ≤ q.block :=
    (older_actions hchain).imp fun {p q} h => by
      unfold Placed.Older at h
      omega
  have hscan : scanEvents (unreliable fails (actions chain) fun p => (p.block : ℤ)) ranges =
      (actions chain).filter fun p => Answered fails ranges p.block :=
    scanEvents_unreliable (by decide) (by decide) hsorted hranges
  rw [getActions, batch, ← hscan, scanEvents, scanEvents, List.map_flatMap]
  refine List.flatMap_congr fun w _ => ?_
  cases unreliable fails (actions chain) (fun p => (p.block : ℤ)) w <;> rfl

end

namespace LiveFeed.Demo

open AgentRegistry.Demo Abi

/-- The owner of the identity 7 registers an agent, and records three actions of it: the last tells
that its advice has lost 50 basis points. -/
def calls : List Event :=
  [⟨.of 0xA1 3, answers, .register 7 9 0xBB [104]⟩,
    ⟨.of 0xA1 4, answers, .recordAction 1 0 [1, 2]⟩,
    ⟨.of 0xA1 5, answers, .recordAction 1 1 []⟩,
    ⟨.of 0xA1 6, answers, .recordAction 1 3 (word (2 ^ 256 - 50))⟩]

def after (n : ℕ) : State := (calls.take n).foldl (transact exec) .initial

theorem run_calls : Run Step .initial
    [⟨after 0, ⟨.of 0xA1 3, answers, .register 7 9 0xBB [104]⟩, after 1⟩,
      ⟨after 1, ⟨.of 0xA1 4, answers, .recordAction 1 0 [1, 2]⟩, after 2⟩,
      ⟨after 2, ⟨.of 0xA1 5, answers, .recordAction 1 1 []⟩, after 3⟩,
      ⟨after 3, ⟨.of 0xA1 6, answers, .recordAction 1 3 (word (2 ^ 256 - 50))⟩, after 4⟩]
    (after 4) :=
  (((Run.nil.snoc _ ⟨trivial, rfl⟩).snoc _ ⟨trivial, rfl⟩).snoc _ ⟨trivial, rfl⟩).snoc _
    ⟨trivial, rfl⟩

/-- The events of the calls, in the blocks 3 to 6. -/
def chain : List (Placed Log) := (after 4).logs.zipIdx.map fun x => ⟨x.2 + 3, 0, [], x.1⟩

/-- `decodeAbiParameters` for an `int256`. -/
def decodeInt (b : Bytes) : Option ℤ :=
  (wordAt b 0).map fun n => if n < 2 ^ 255 then n else n - 2 ^ 256

/-- The scan and the poll both deliver the block 5. The feed has room for two actions and shows the
newest, the newest first. -/
theorem calls_streamed : useLiveFeed .exact (fun _ => none) decodeInt 2
    ([fun b => decide (b ≤ 5), fun b => decide (5 ≤ b)].map (getActions chain)) =
      [⟨lit "6:0", 1, 3, Python.hex0x (word (2 ^ 256 - 50)), 6, [], 6, 0, ⟨none, some (-50)⟩⟩,
        ⟨lit "5:0", 1, 1, lit "0x", 5, [], 5, 0, .empty⟩] := by
  have hlogs : chain.map (·.log) = (after 4).logs := by decide +kernel
  have hchain : chain.Pairwise Placed.Older := by decide +kernel
  have hexact := live_feed_exact run_calls hlogs hchain .exact (fun _ => none) decodeInt 2
    [fun b => decide (b ≤ 5), fun b => decide (5 ≤ b)]
  have horder : InOrder [fun b => decide (b ≤ 5), fun b => decide (5 ≤ b)] := by
    simp [InOrder]
    omega
  rw [hexact.newest horder]
  decide +kernel

end LiveFeed.Demo

end Web
end Arcane
