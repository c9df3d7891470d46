import Arcane.Colosseum.Bounties
import Arcane.Lib.Doubles
import Arcane.Web.Chain
import Arcane.Web.Stream

/-!
# The chaos of a duel

`useInjections` and `useBounties` of `web/apps/web/src/lib/colosseum.ts`: the `ChaosInjected` and
the `BountyPaid` events of one duel. Both sort by the block alone, so that the events of one block
keep their order. A hook that moves to another duel keeps what it has shown and seen.

* `events_watch`: both hooks show a feed of the events in the chain.
* `watch_single`: of a hook that stays with one duel this is the stream of the duel's events.
* `chaos_shown`: what they show of the Colosseum that the calls have run.
-/

namespace Arcane
namespace Web

open Text Evm Colosseum

structure RawInjLog where
  injectionId : Option ℕ
  duelId : Option ℕ
  target : Option Str
  spectator : Option Str
  itemKind : Option ℕ
  fee : Option ℕ
  transactionHash : Option Str
  blockNumber : Option ℕ
  logIndex : Option ℕ

structure InjectionEvent (D : Type) where
  id : Str
  injectionId : ℕ
  duelId : D
  target : Str
  spectator : Str
  itemKind : ℕ
  fee : ℕ
  txHash : Str
  blockNumber : ℕ
  deriving DecidableEq

structure RawBountyLog where
  injectionId : Option ℕ
  developer : Option Str
  amount : Option ℕ
  blockNumber : Option ℕ
  logIndex : Option ℕ

structure BountyEvent where
  id : Str
  injectionId : ℕ
  developer : Str
  amount : ℕ
  blockNumber : ℕ
  deriving DecidableEq

/-- What a hook ingests while its duel and its cap stay as they are. -/
structure ChaosEffect (D L : Type) where
  duelId : Option D
  cap : ℕ
  batches : List (List L)

section Hooks

variable {D : Type} (N : Doubles D)

def RawInjLog.toEvent (l : RawInjLog) : InjectionEvent D where
  id := eventId (l.blockNumber.getD 0) (l.logIndex.getD 0)
  injectionId := l.injectionId.getD 0
  duelId := N.ofInt (l.duelId.getD 0)
  target := l.target.getD (lit "0x")
  spectator := l.spectator.getD (lit "0x")
  itemKind := l.itemKind.getD 0
  fee := l.fee.getD 0
  txHash := l.transactionHash.getD (lit "0x")
  blockNumber := l.blockNumber.getD 0

def RawBountyLog.toEvent (l : RawBountyLog) : BountyEvent where
  id := eventId (l.blockNumber.getD 0) (l.logIndex.getD 0)
  injectionId := l.injectionId.getD 0
  developer := l.developer.getD (lit "0x")
  amount := l.amount.getD 0
  blockNumber := l.blockNumber.getD 0

/-- `ingest` of both hooks, for events with an `id` and a `blockNumber`. -/
def ingestByBlock {A : Type} (id : A → Str) (blockNumber : A → ℕ) (cap : ℕ) (feed : Feed A Str)
    (incoming : List A) : Feed A Str :=
  Feed.ingest id
    (fun fresh => fresh.mergeSort fun a b => (blockNumber b : ℤ) - blockNumber a ≤ 0) cap feed
    incoming

/-- The effect of both hooks: nothing without a duel. -/
def ChaosEffect.run {A L : Type} [DecidableEq D] (toEvent : L → A) (id : A → Str)
    (blockNumber : A → ℕ) (feed : Feed A Str) (effect : ChaosEffect D L) : Feed A Str :=
  match effect.duelId with
  | none => feed
  | some duelId =>
    if duelId = N.ofInt 0 then feed
    else effect.batches.foldl (fun feed logs =>
      ingestByBlock id blockNumber effect.cap feed (logs.map toEvent)) feed

variable [DecidableEq D]

/-- The events that `useInjections` shows after these effects. -/
def useInjections (effects : List (ChaosEffect D RawInjLog)) : List (InjectionEvent D) :=
  (effects.foldl (ChaosEffect.run N (RawInjLog.toEvent N) InjectionEvent.id
    InjectionEvent.blockNumber) .empty).events

/-- The same for `useBounties`. -/
def useBounties (effects : List (ChaosEffect D RawBountyLog)) : List BountyEvent :=
  (effects.foldl (ChaosEffect.run N RawBountyLog.toEvent BountyEvent.id BountyEvent.blockNumber)
    .empty).events

end Hooks

/-! ## The events of a duel -/

section

variable {U : Unicode} (S : Checksum U) (chain : List (Placed (Trace.Step State Event)))
  (duelId : ℕ)

/-- The injections of a duel, in the order of the chain. -/
def injectionsOf : List (Placed ChaosInjected) :=
  (placedEvents chaosInjected chain).filter (·.log.duelId = duelId)

/-- The bounties that the reports of a duel have paid. -/
def bountiesOf : List (Placed BountyPaid) :=
  (placedEvents bountyPaid chain).filter (·.log.duelId = duelId)

/-- An injection as the node answers it. -/
def rawInjection (p : Placed ChaosInjected) : RawInjLog where
  injectionId := some p.log.injectionId
  duelId := some p.log.duelId
  target := some (S.text p.log.target)
  spectator := some (S.text p.log.spectator)
  itemKind := some p.log.itemKind
  fee := some p.log.fee
  transactionHash := some p.transactionHash
  blockNumber := some p.block
  logIndex := some p.logIndex

def rawBounty (p : Placed BountyPaid) : RawBountyLog where
  injectionId := some p.log.injectionId
  developer := some (S.text p.log.developer)
  amount := some p.log.amount
  blockNumber := some p.block
  logIndex := some p.logIndex

/-- What a scan or a poll delivers of the injections in some blocks. -/
def getInjections (blocks : ℕ → Bool) : List RawInjLog :=
  (batch (injectionsOf chain duelId) blocks).map (rawInjection S)

def getBounties (blocks : ℕ → Bool) : List RawBountyLog :=
  (batch (bountiesOf chain duelId) blocks).map (rawBounty S)

end

/-- A time for which a hook is on one duel, and what is delivered meanwhile. -/
structure Watch where
  duelId : ℕ
  deliveries : List (ℕ → Bool)

/-- The effect of a hook on a duel, for which the node gets its id. -/
def Watch.effect {D L : Type} (N : Doubles D) (get : ℕ → (ℕ → Bool) → List L) (cap : ℕ)
    (w : Watch) : ChaosEffect D L :=
  let duelId := N.ofInt w.duelId
  { duelId := some duelId, cap, batches := w.deliveries.map (get (N.bigInt duelId).toNat) }

/-- Later blocks are in front. -/
def laterBlock {L : Type} (p q : Placed L) : Bool := q.block ≤ p.block

theorem newestFirst_laterBlock {L : Type} : NewestFirst (L := L) laterBlock where
  trans := by
    unfold laterBlock
    intro p q r
    simp only [decide_eq_true_eq]
    omega
  total := by
    unfold laterBlock
    intro p q
    rw [Bool.or_eq_true, decide_eq_true_eq, decide_eq_true_eq]
    exact le_total _ _
  later := by
    unfold laterBlock
    intro p q h
    exact ⟨decide_eq_true h.le, decide_eq_false (by omega)⟩

/-! ## Feeds that move from duel to duel -/

section

variable {X : Type} (duelOf : X → ℕ)

/-- The logs of a duel that a delivery has. -/
def Watch.picks (w : Watch) : List (Placed X → Bool) :=
  w.deliveries.map fun blocks p => blocks p.block && decide (duelOf p.log = w.duelId)

/-- The logs that a hook with room for `cap` shows after these watches. -/
def watched (chain : List (Placed X)) (cap : ℕ) (ws : List Watch) : List (Placed X) :=
  feedOf laterBlock chain cap (ws.flatMap (Watch.picks duelOf))

/-- The log was delivered while the hook was on its duel. -/
def Watched (ws : List Watch) (p : Placed X) : Prop :=
  ∃ w ∈ ws, duelOf p.log = w.duelId ∧ Delivered w.deliveries p.block

instance (ws : List Watch) (p : Placed X) : Decidable (Watched duelOf ws p) :=
  inferInstanceAs (Decidable (∃ w ∈ ws, _ ∧ _))

/-- What a hook shows of the logs of a chain. -/
structure WatchExact (chain : List (Placed X)) (cap : ℕ) (ws : List Watch) : Prop where
  nodup : (watched duelOf chain cap ws).Nodup
  mem : ∀ p ∈ watched duelOf chain cap ws, p ∈ chain ∧ Watched duelOf ws p
  /-- Nothing that was delivered is missing while there is room. -/
  length : (watched duelOf chain cap ws).length =
    min cap (chain.filter fun p => Watched duelOf ws p).length
  /-- What was delivered and is not shown never comes back. -/
  gone : ∀ p ∈ chain, Watched duelOf ws p → p ∉ watched duelOf chain cap ws →
    ∀ more, p ∉ watched duelOf chain cap (ws ++ more)
  /-- A hook that stays with one duel shows the stream of its logs. -/
  stream : ∀ w, ws = [w] →
    watched duelOf chain cap ws =
      stream laterBlock (chain.filter (duelOf ·.log = w.duelId)) cap w.deliveries ∧
    StreamExact laterBlock (chain.filter (duelOf ·.log = w.duelId)) cap w.deliveries

variable {duelOf} {chain : List (Placed X)} {cap : ℕ} {ws : List Watch} {w : Watch} {p : Placed X}

theorem picked_iff : Picked (ws.flatMap (Watch.picks duelOf)) p ↔ Watched duelOf ws p := by
  simp only [Picked, Watched, Delivered, Watch.picks, List.any_flatMap, List.any_map,
    List.any_eq_true, Function.comp_apply, Bool.and_eq_true, decide_eq_true_eq]
  constructor
  · rintro ⟨w, hw, blocks, hblocks, hin, hduel⟩
    exact ⟨w, hw, hduel, blocks, hblocks, hin⟩
  · rintro ⟨w, hw, hduel, blocks, hblocks, hin⟩
    exact ⟨w, hw, blocks, hblocks, hin, hduel⟩

theorem watch_single (chain : List (Placed X)) (cap : ℕ) (w : Watch) :
    watched duelOf chain cap [w] =
      stream laterBlock (chain.filter (duelOf ·.log = w.duelId)) cap w.deliveries := by
  rw [watched, feedOf, stream, List.flatMap_singleton, Watch.picks, List.map_map]
  congr 2
  refine List.map_congr_left fun blocks _ => ?_
  rw [batch, List.filter_filter]
  rfl

theorem watch_exact (hchain : chain.Pairwise Placed.Older) (duelOf : X → ℕ) (cap : ℕ)
    (ws : List Watch) : WatchExact duelOf chain cap ws := by
  have hfeed := feedOf_exact hchain laterBlock cap (ws.flatMap (Watch.picks duelOf))
  constructor
  · exact hfeed.nodup
  · intro p hp
    obtain ⟨hmem, hpicked⟩ := hfeed.mem p hp
    exact ⟨hmem, picked_iff.mp hpicked⟩
  · rw [watched, hfeed.length]
    congr 2
    refine List.filter_congr fun p _ => ?_
    rw [Bool.eq_iff_iff, decide_eq_true_eq, picked_iff]
  · intro p hp hin hcut more
    rw [watched, List.flatMap_append]
    exact hfeed.gone p hp (picked_iff.mpr hin) hcut _
  · rintro w rfl
    exact ⟨watch_single chain cap w,
      stream_exact (hchain.sublist List.filter_sublist) newestFirst_laterBlock cap _⟩

/-- The effects of some watches ingest what they deliver. -/
theorem run_watches {D L A : Type} [DecidableEq D] (N : Doubles D) {toEvent : L → A} {id : A → Str}
    {blockNumber : A → ℕ} {get : ℕ → (ℕ → Bool) → List L}
    (hid : ∀ w ∈ ws, w.duelId ≠ 0 ∧ w.duelId ≤ 2 ^ 53) (feed : Feed A Str) :
    (ws.map (Watch.effect N get cap)).foldl (ChaosEffect.run N toEvent id blockNumber) feed =
      (ws.flatMap fun w => w.deliveries.map (get w.duelId)).foldl
        (fun feed logs => ingestByBlock id blockNumber cap feed (logs.map toEvent)) feed := by
  induction ws generalizing feed with
  | nil => rfl
  | cons w ws ih =>
    obtain ⟨hne, hle⟩ := hid w List.mem_cons_self
    have hexact : |(w.duelId : ℤ)| ≤ 2 ^ 53 := by
      rw [abs_le]
      omega
    have hzero : N.ofInt w.duelId ≠ N.ofInt 0 := by
      rw [Ne, N.ofInt_inj hexact (by decide)]
      omega
    have hrun : ChaosEffect.run N toEvent id blockNumber feed (w.effect N get cap) =
        (w.deliveries.map (get w.duelId)).foldl
          (fun feed logs => ingestByBlock id blockNumber cap feed (logs.map toEvent)) feed := by
      simp only [ChaosEffect.run, Watch.effect, if_neg hzero, N.bigInt_exact _ hexact,
        Int.toNat_natCast]
    rw [List.map_cons, List.foldl_cons, hrun, List.flatMap_cons, List.foldl_append]
    exact ih (fun v hv => hid v (List.mem_cons_of_mem _ hv)) _

/-- A hook that turns the logs of a duel into events shows those of its feed. -/
theorem events_watch {D L A : Type} [DecidableEq D] (N : Doubles D) {toEvent : L → A} {id : A → Str}
    {blockNumber : A → ℕ} {raw : Placed X → L} {get : ℕ → (ℕ → Bool) → List L}
    (hget : ∀ duelId blocks,
      get duelId blocks = (batch (chain.filter (duelOf ·.log = duelId)) blocks).map raw)
    (hkey : ∀ p, id (toEvent (raw p)) = p.key)
    (hblock : ∀ p, blockNumber (toEvent (raw p)) = p.block)
    (hid : ∀ w ∈ ws, w.duelId ≠ 0 ∧ w.duelId ≤ 2 ^ 53) :
    ((ws.map (Watch.effect N get cap)).foldl (ChaosEffect.run N toEvent id blockNumber)
      .empty).events = (watched duelOf chain cap ws).map fun p => toEvent (raw p) := by
  have hle (p q : Placed X) : decide ((blockNumber (toEvent (raw q)) : ℤ) -
      blockNumber (toEvent (raw p)) ≤ 0) = laterBlock p q := by
    rw [hblock, hblock]
    exact decide_eq_decide.mpr (by omega)
  have hbatches : (ws.flatMap fun w => w.deliveries.map (get w.duelId)).map (List.map toEvent) =
      (ws.flatMap (Watch.picks duelOf)).map fun pick =>
        (chain.filter pick).map fun p => toEvent (raw p) := by
    rw [List.map_flatMap, List.map_flatMap]
    refine List.flatMap_congr fun w _ => ?_
    rw [Watch.picks, List.map_map, List.map_map]
    refine List.map_congr_left fun blocks _ => ?_
    simp only [Function.comp_apply, hget, List.map_map, batch, List.filter_filter]
    rfl
  rw [run_watches N hid, watched,
    ← run_feedOf id (fun a b => (blockNumber b : ℤ) - blockNumber a ≤ 0) hkey hle, ← hbatches,
    Feed.run, List.foldl_map]
  rfl

end

section

variable {U : Unicode} (S : Checksum U) {D : Type} (N : Doubles D)

/-- The event of an injection. -/
def injectionEvent (p : Placed ChaosInjected) : InjectionEvent D := (rawInjection S p).toEvent N

def bountyEvent (p : Placed BountyPaid) : BountyEvent := (rawBounty S p).toEvent

/-- The event is that of an accepted call of its spectator. -/
structure Thrown (duelId : ℕ) (st : Trace.Step State Event) (e : InjectionEvent D) : Prop where
  call : ∃ target, st.ev.call = .injectChaos duelId target e.itemKind ∧ e.target = S.text target
  duelId_eq : e.duelId = N.ofInt duelId
  injectionId_eq : e.injectionId = st.ev.ret
  spectator : e.spectator = S.text st.ev.msg.sender
  fee : e.fee = st.pre.itemPrice e.itemKind

/-- The event shows the bounty that the report at `q` paid for the injection `x` at `p`. -/
structure Earned (C : Config) (duelId : ℕ) (p q : Placed (Trace.Step State Event))
    (x : ChaosInjected) (e : BountyEvent) : Prop where
  injected : chaosInjected p.log = some x
  older : p.Older q
  injectionId_eq : e.injectionId = x.injectionId
  /-- The amount is what the operator left of the fee. -/
  amount : e.amount = p.log.pre.escrowFor x.itemKind
  escrow : q.log.pre.injectionEscrows x.injectionId = e.amount
  positive : 0 < e.amount
  survived : ∃ rBps ing failed,
    q.log.ev.call = .reportCall duelId x.target x.injectionId rBps ing true failed
  developer : e.developer = S.text (q.log.pre.agents x.target).developer
  moved : Token.Moved q.log.pre.usdc q.log.post.usdc C.self (q.log.pre.agents x.target).developer
    e.amount

variable [DecidableEq D] (chain : List (Placed (Trace.Step State Event))) (cap : ℕ)

/-- The injections that the page shows after these watches of a chain. -/
def shownInjections (ws : List Watch) : List (InjectionEvent D) :=
  useInjections N (ws.map (Watch.effect N (getInjections S chain) cap))

/-- The bounties that the page shows. -/
def shownBounties (ws : List Watch) : List BountyEvent :=
  useBounties N (ws.map (Watch.effect N (getBounties S chain) cap))

/-- What the page shows of the chaos in the Colosseum that has run the steps of `chain`, when its
hooks are on one duel after the other. -/
structure ChaosShown (C : Config) (ws : List Watch) : Prop where
  injections : shownInjections S N chain cap ws =
    (watched ChaosInjected.duelId (placedEvents chaosInjected chain) cap ws).map
      (injectionEvent S N)
  injections_exact :
    WatchExact ChaosInjected.duelId (placedEvents chaosInjected chain) cap ws
  /-- The ids ascend in the chain, so that no injection is shown twice. -/
  numbered : (placedEvents chaosInjected chain).Pairwise fun p q =>
    p.log.injectionId < q.log.injectionId
  thrown : ∀ e ∈ shownInjections S N chain cap ws, ∃ w ∈ ws, ∃ p ∈ chain,
    Thrown S N w.duelId p.log e
  bounties : shownBounties S N chain cap ws =
    (watched BountyPaid.duelId (placedEvents bountyPaid chain) cap ws).map (bountyEvent S)
  bounties_exact : WatchExact BountyPaid.duelId (placedEvents bountyPaid chain) cap ws
  /-- No injection is shown to pay twice. -/
  once : (placedEvents bountyPaid chain).Pairwise fun p q => p.log.injectionId ≠ q.log.injectionId
  earned : ∀ e ∈ shownBounties S N chain cap ws, ∃ w ∈ ws, ∃ p ∈ chain, ∃ q ∈ chain, ∃ x,
    Earned S C w.duelId p q x e
  /-- While injections are reported in the duel they were made in, the bounties are those of the
  duels' own injections. -/
  own : (∀ st ∈ chain.map (·.log), ReportsOwnDuel (chain.map (·.log)) st) →
    ∀ e ∈ shownBounties S N chain cap ws, ∃ w ∈ ws, ∃ p ∈ injectionsOf chain w.duelId,
      p.log.injectionId = e.injectionId

end

section

variable {U : Unicode} {S : Checksum U} {D : Type} {N : Doubles D}
  {chain : List (Placed (Trace.Step State Event))} {duelId cap : ℕ} {ws : List Watch} {C : Config}
  {s₀ s : State}

theorem mem_injectionsOf {p : Placed ChaosInjected} (h : p ∈ injectionsOf chain duelId) :
    p.log.duelId = duelId ∧ ∃ q ∈ chain, chaosInjected q.log = some p.log := by
  obtain ⟨hmem, hid⟩ := List.mem_filter.mp h
  obtain ⟨q, hq, hlog, -⟩ := mem_placedEvents.mp hmem
  exact ⟨of_decide_eq_true hid, q, hq, hlog⟩

theorem thrown {p : Placed ChaosInjected} (h : p ∈ injectionsOf chain duelId) :
    ∃ q ∈ chain, Thrown S N duelId q.log (injectionEvent S N p) := by
  obtain ⟨rfl, q, hq, hlog⟩ := mem_injectionsOf h
  obtain ⟨hcall, hret, hsender, hfee⟩ := chaosInjected_eq_some.mp hlog
  exact ⟨q, hq, ⟨_, hcall, rfl⟩, rfl, hret.symm, congrArg S.text hsender.symm, hfee.symm⟩

theorem earned (h₀ : Deployed C s₀) (h : Run C s₀ (chain.map (·.log)) s)
    (hchain : chain.Pairwise Placed.Older) {b : Placed BountyPaid}
    (hb : b ∈ bountiesOf chain duelId) :
    ∃ p ∈ chain, ∃ q ∈ chain, ∃ x, Earned S C duelId p q x (bountyEvent S b) := by
  obtain ⟨hmem, hid⟩ := List.mem_filter.mp hb
  obtain rfl := of_decide_eq_true hid
  obtain ⟨q, hq, hlog, -⟩ := mem_placedEvents.mp hmem
  -- the injection is in the part of the chain before the report
  obtain ⟨before, after, rfl⟩ := List.append_of_mem hq
  rw [List.map_append, List.map_cons] at h
  obtain ⟨st, hst, x, hx, hinjection, hamount, hpays, -, hmoved⟩ := Run.bounty h₀ h hlog
  obtain ⟨p, hp, rfl⟩ := List.mem_map.mp hst
  have hcall := hpays.call
  have hescrow := hpays.escrow
  rw [← hinjection] at hcall hescrow
  refine ⟨p, List.mem_append_left _ hp, q, hq, x, hx, ?_, hinjection.symm, hamount, hescrow,
    hpays.positive, hcall, congrArg S.text hpays.developer.symm, ?_⟩
  · exact (List.pairwise_append.mp hchain).2.2 p hp q List.mem_cons_self
  · rw [hpays.developer]
    exact hmoved

/-- A report in the duel of its injection pays a bounty of that duel's own injections. -/
theorem Earned.own (h₀ : Deployed C s₀) (h : Run C s₀ (chain.map (·.log)) s)
    {p q : Placed (Trace.Step State Event)} {x : ChaosInjected} {e : BountyEvent} (hp : p ∈ chain)
    (he : Earned S C duelId p q x e)
    (hown : ReportsOwnDuel (chain.map (·.log)) q.log) :
    ∃ p ∈ injectionsOf chain duelId, p.log.injectionId = e.injectionId := by
  obtain ⟨rBps, ing, failed, hcall⟩ := he.survived
  obtain ⟨target, hinjected⟩ := hown _ _ _ _ _ _ _ hcall (he.escrow ▸ he.positive.ne')
  obtain ⟨hmade, hret, -⟩ := chaosInjected_eq_some.mp he.injected
  have hsame : x.duelId = duelId := (Run.recorded h₀ h).unique x.injectionId _ _ _ _
    ⟨p.log, List.mem_map_of_mem hp, _, hmade, hret⟩ hinjected
  refine ⟨⟨p.block, p.logIndex, p.transactionHash, x⟩, List.mem_filter.mpr ⟨?_, ?_⟩,
    he.injectionId_eq.symm⟩
  · exact mem_placedEvents.mpr ⟨p, hp, he.injected, rfl⟩
  · exact decide_eq_true hsame

theorem chaos_shown [DecidableEq D] (h₀ : Deployed C s₀) (h : Run C s₀ (chain.map (·.log)) s)
    (hchain : chain.Pairwise Placed.Older) (S : Checksum U) (N : Doubles D) (cap : ℕ)
    (hid : ∀ w ∈ ws, w.duelId ≠ 0 ∧ w.duelId ≤ 2 ^ 53) : ChaosShown S N chain cap C ws := by
  have hinjections : shownInjections S N chain cap ws =
      (watched ChaosInjected.duelId (placedEvents chaosInjected chain) cap ws).map
        (injectionEvent S N) :=
    events_watch N (fun _ _ => rfl) (fun _ => rfl) (fun _ => rfl) hid
  have hbounties : shownBounties S N chain cap ws =
      (watched BountyPaid.duelId (placedEvents bountyPaid chain) cap ws).map (bountyEvent S) :=
    events_watch N (fun _ _ => rfl) (fun _ => rfl) (fun _ => rfl) hid
  have hexact := watch_exact (older_placedEvents chaosInjected hchain) ChaosInjected.duelId cap ws
  have hexact' := watch_exact (older_placedEvents bountyPaid hchain) BountyPaid.duelId cap ws
  have hearned : ∀ e ∈ shownBounties S N chain cap ws, ∃ w ∈ ws, ∃ p ∈ chain, ∃ q ∈ chain, ∃ x,
      Earned S C w.duelId p q x e := by
    rw [hbounties]
    intro e he
    obtain ⟨b, hb, rfl⟩ := List.mem_map.mp he
    obtain ⟨hmem, w, hw, hduel, -⟩ := hexact'.mem b hb
    exact ⟨w, hw, earned h₀ h hchain (List.mem_filter.mpr ⟨hmem, decide_eq_true hduel⟩)⟩
  refine ⟨hinjections, hexact, ?_, ?_, hbounties, hexact', ?_, hearned, fun hown e he => ?_⟩
  · exact pairwise_placedEvents (List.pairwise_map.mp (Run.injections_increase h₀ h))
      fun p q x y hpq hx hy => hpq x y hx hy
  · rw [hinjections]
    intro e he
    obtain ⟨p, hp, rfl⟩ := List.mem_map.mp he
    obtain ⟨hmem, w, hw, hduel, -⟩ := hexact.mem p hp
    exact ⟨w, hw, thrown (List.mem_filter.mpr ⟨hmem, decide_eq_true hduel⟩)⟩
  · exact pairwise_placedEvents (List.pairwise_map.mp (Run.bounties_once h₀ h))
      fun p q b c hpq hb hc => hpq b c hb hc
  · obtain ⟨w, hw, p, hp, q, hq, x, hearns⟩ := hearned e he
    exact ⟨w, hw, hearns.own h₀ h hp (hown _ (List.mem_map_of_mem hq))⟩

end

namespace Chaos.Demo

open Colosseum.Demo

/-- Every step in a block of its own. -/
def placed (tr : List (Trace.Step State Event)) : List (Placed (Trace.Step State Event)) :=
  tr.zipIdx.map fun x => ⟨x.2, 0, [], x.1⟩

/-- The page is on the duel 1 and then on the duel 2, which has no injections. -/
def watches : List Watch := [⟨1, [fun _ => true]⟩, ⟨2, [fun _ => true]⟩]

/-- An injection of 500000 is survived, and its bounty is what the operator left. Both stay on the
page. -/
theorem bounty_shown : ∃ chain s, Run config start (chain.map (·.log)) s ∧
    ChaosShown (.keccak .ascii) Doubles.exact chain 20 config watches ∧
    (shownInjections (.keccak .ascii) Doubles.exact chain 20 watches).map (·.fee) = [500000] ∧
    (shownBounties (.keccak .ascii) Doubles.exact chain 20 watches).map (·.amount) = [450000] := by
  have h : (play config start attributed).map (fun r =>
      (decide ((placed r.1).Pairwise Placed.Older),
        (shownInjections (.keccak .ascii) Doubles.exact (placed r.1) 20 watches).map (·.fee),
        (shownBounties (.keccak .ascii) Doubles.exact (placed r.1) 20 watches).map (·.amount))) =
      some (true, [500000], [450000]) := by
    decide +kernel
  obtain ⟨r, hr, hv⟩ := Option.map_eq_some_iff.mp h
  simp only [Prod.mk.injEq, decide_eq_true_eq] at hv
  obtain ⟨hchain, hinjections, hbounties⟩ := hv
  have hrun : Run config start ((placed r.1).map (·.log)) r.2 := by
    have hlogs : (placed r.1).map (·.log) = r.1 := by
      rw [placed, List.map_map]
      exact List.zipIdx_map_fst 0 r.1
    rw [hlogs]
    exact Run.of_play hr
  exact ⟨placed r.1, r.2, hrun, chaos_shown deployed hrun hchain _ _ 20 (by decide), hinjections,
    hbounties⟩

end Chaos.Demo

end Web
end Arcane
