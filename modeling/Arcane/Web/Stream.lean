import Arcane.Lib.Digits
import Arcane.Lib.Feed
import Arcane.Lib.SortKey

/-!
# The event streams of the web app

`useLiveFeed` (`arena.ts`), `useInjections`, `useReasoning` and `useBounties` (`colosseum.ts`)
ingest batches of logs in the same way: from one scan of the past, and from a poll every few
seconds, in any order. An event is told by its block and its place there.

* `Placed`: a log in the chain. `eventId`: the key of its event.
* `feedOf_exact`: what a feed shows of the logs that it is given, in any batches.
* `batch`: the logs of some blocks, which is what a scan or a poll delivers.
* `stream_exact`: what such a stream shows after any deliveries.
* `run_stream`: a hook that makes an event of each log shows the events of the stream.
-/

namespace Arcane
namespace Web

open Text

/-- A log with its place in the chain. -/
structure Placed (L : Type) where
  block : ℕ
  logIndex : ℕ
  transactionHash : Str
  log : L
  deriving DecidableEq

/-- The first log comes before the second. -/
def Placed.Older {L : Type} (p q : Placed L) : Prop :=
  p.block < q.block ∨ p.block = q.block ∧ p.logIndex < q.logIndex

instance {L : Type} (p q : Placed L) : Decidable (p.Older q) :=
  inferInstanceAs (Decidable (_ ∨ _))

/-- The text of a block's number and of a log's place in it. -/
def eventId (blockNumber logIndex : ℕ) : Str :=
  natText blockNumber ++ (ofChar ':' :: natText logIndex)

theorem eventId_inj {b i c j : ℕ} (h : eventId b i = eventId c j) : b = c ∧ i = j := by
  have hdigits (n : ℕ) : ∀ x ∈ natText n, x ≠ ofChar ':' := by
    rintro x hx rfl
    have hrange := digit_of_mem_natText _ hx
    have hmark : (ofChar ':').val = 58 := rfl
    omega
  have hcut (n : ℕ) (r : Str) :
      (natText n ++ ofChar ':' :: r).takeWhile (fun x => decide (x ≠ ofChar ':')) = natText n := by
    rw [List.takeWhile_append_of_pos fun x hx => decide_eq_true (hdigits n x hx)]
    simp
  have hb : natText b = natText c := by
    rw [eventId, eventId] at h
    rw [← hcut b (natText i), h, hcut]
  refine ⟨natText_inj hb, natText_inj ?_⟩
  rw [eventId, eventId, hb] at h
  exact (List.cons.inj (List.append_cancel_left h)).2

section

variable {L : Type}

/-- The events among the logs, each where its log is. -/
def placedEvents {X : Type} (emit : L → Option X) (chain : List (Placed L)) : List (Placed X) :=
  chain.filterMap fun p => (emit p.log).map fun x => ⟨p.block, p.logIndex, p.transactionHash, x⟩

/-- The logs of the blocks that are delivered. -/
def batch (chain : List (Placed L)) (blocks : ℕ → Bool) : List (Placed L) :=
  chain.filter fun p => blocks p.block

/-- The key of a log. -/
def Placed.key (p : Placed L) : Str := eventId p.block p.logIndex

/-- The feed that keeps `cap` logs, after the batches of those that are picked. -/
def feedOf (le : Placed L → Placed L → Bool) (chain : List (Placed L)) (cap : ℕ)
    (picks : List (Placed L → Bool)) : List (Placed L) :=
  (Feed.run Placed.key (fun l => l.mergeSort le) cap (picks.map chain.filter)).events

/-- The log is in some batch. -/
def Picked (picks : List (Placed L → Bool)) (p : Placed L) : Bool := picks.any fun pick => pick p

/-- What a feed shows of the logs of a chain. -/
structure FeedExact (le : Placed L → Placed L → Bool) (chain : List (Placed L)) (cap : ℕ)
    (picks : List (Placed L → Bool)) : Prop where
  nodup : (feedOf le chain cap picks).Nodup
  mem : ∀ p ∈ feedOf le chain cap picks, p ∈ chain ∧ Picked picks p
  /-- Nothing that was picked is missing while there is room. -/
  length : (feedOf le chain cap picks).length = min cap (chain.filter (Picked picks)).length
  /-- What was picked and is not shown never comes back. -/
  gone : ∀ p ∈ chain, Picked picks p → p ∉ feedOf le chain cap picks →
    ∀ more, p ∉ feedOf le chain cap (picks ++ more)

/-- The stream that keeps `cap` logs, after the deliveries. -/
def stream (le : Placed L → Placed L → Bool) (chain : List (Placed L)) (cap : ℕ)
    (deliveries : List (ℕ → Bool)) : List (Placed L) :=
  (Feed.run Placed.key (fun l => l.mergeSort le) cap (deliveries.map (batch chain))).events

/-- Some delivery has the block. -/
def Delivered (deliveries : List (ℕ → Bool)) (block : ℕ) : Bool :=
  deliveries.any fun blocks => blocks block

/-- What a later delivery adds is above all blocks of the earlier ones. -/
def InOrder (deliveries : List (ℕ → Bool)) : Prop :=
  deliveries.Pairwise fun earlier later =>
    ∀ b c, earlier b → later c → earlier c = false → b < c

/-- A comparison that puts later blocks in front. -/
structure NewestFirst (le : Placed L → Placed L → Bool) : Prop where
  trans : ∀ p q r, le p q → le q r → le p r
  total : ∀ p q, le p q || le q p
  later : ∀ p q, q.block < p.block → le p q = true ∧ le q p = false

/-- What a stream shows of the logs of a chain. -/
structure StreamExact (le : Placed L → Placed L → Bool) (chain : List (Placed L)) (cap : ℕ)
    (deliveries : List (ℕ → Bool)) : Prop where
  nodup : (stream le chain cap deliveries).Nodup
  mem : ∀ p ∈ stream le chain cap deliveries, p ∈ chain ∧ Delivered deliveries p.block
  /-- Nothing that was delivered is missing while there is room. -/
  length : (stream le chain cap deliveries).length =
    min cap (batch chain (Delivered deliveries)).length
  /-- What was delivered and is not shown never comes back. -/
  gone : ∀ p ∈ chain, Delivered deliveries p.block → p ∉ stream le chain cap deliveries →
    ∀ more, p ∉ stream le chain cap (deliveries ++ more)
  /-- Deliveries in order show the newest logs. -/
  newest : InOrder deliveries → stream le chain cap deliveries =
    ((batch chain (Delivered deliveries)).mergeSort le).take cap
  /-- A delivery with enough logs that are new to the stream is all that is shown after it, be it
  older than what was shown. -/
  full : ∀ blocks, cap ≤ (batch chain fun b => blocks b && !Delivered deliveries b).length →
    ∀ p ∈ stream le chain cap (deliveries ++ [blocks]), blocks p.block

variable {le : Placed L → Placed L → Bool} {chain : List (Placed L)} {cap : ℕ}
  {picks : List (Placed L → Bool)} {deliveries : List (ℕ → Bool)} {p q : Placed L}

theorem mem_batch {blocks : ℕ → Bool} : p ∈ batch chain blocks ↔ p ∈ chain ∧ blocks p.block :=
  List.mem_filter

theorem Placed.Older.asymm (h : p.Older q) : ¬ q.Older p := by
  unfold Placed.Older at h ⊢
  omega

theorem Placed.Older.key_ne (h : p.Older q) : p.key ≠ q.key := by
  intro heq
  obtain ⟨hblock, hindex⟩ := eventId_inj heq
  unfold Placed.Older at h
  omega

/-- Two logs of a chain are not at the same place. -/
theorem eq_of_key_eq (hchain : chain.Pairwise Placed.Older) (hp : p ∈ chain) (hq : q ∈ chain)
    (h : p.key = q.key) : p = q := by
  have hsymm : Std.Symm fun p q : Placed L => p.key = q.key → p = q :=
    ⟨fun p q hpq h => (hpq h.symm).symm⟩
  have hall : chain.Pairwise fun p q => p.key = q.key → p = q :=
    hchain.imp fun h heq => absurd heq h.key_ne
  exact hall.forall_of_forall (fun _ _ _ => rfl) hp hq h

theorem distinct_picks (hchain : chain.Pairwise Placed.Older) (picks : List (Placed L → Bool)) :
    Feed.Distinct Placed.key (picks.map chain.filter) := by
  intro b hb c hc d hd e he heq
  obtain ⟨pick, -, rfl⟩ := List.mem_map.mp hb
  obtain ⟨pick', -, rfl⟩ := List.mem_map.mp hc
  exact eq_of_key_eq hchain (List.mem_filter.mp hd).1 (List.mem_filter.mp he).1 heq

theorem nodup_keys (hchain : chain.Pairwise Placed.Older) (pick : Placed L → Bool) :
    ((chain.filter pick).map Placed.key).Nodup := by
  rw [List.nodup_iff_pairwise_ne, List.pairwise_map]
  exact (hchain.sublist List.filter_sublist).imp Placed.Older.key_ne

theorem mem_placedEvents {X : Type} {emit : L → Option X} {x : Placed X} :
    x ∈ placedEvents emit chain ↔ ∃ p ∈ chain, emit p.log = some x.log ∧
      p = ⟨x.block, x.logIndex, x.transactionHash, p.log⟩ := by
  rw [placedEvents, List.mem_filterMap]
  constructor
  · rintro ⟨p, hp, hx⟩
    obtain ⟨y, hy, rfl⟩ := Option.map_eq_some_iff.mp hx
    exact ⟨p, hp, hy, rfl⟩
  · rintro ⟨p, hp, hx, hplace⟩
    refine ⟨p, hp, ?_⟩
    rw [hx, Option.map_some, hplace]

/-- A relation of the steps of a chain holds of their events. -/
theorem pairwise_placedEvents {X : Type} {emit : L → Option X} {R : Placed L → Placed L → Prop}
    {R' : Placed X → Placed X → Prop} (h : chain.Pairwise R)
    (hR : ∀ p q x y, R p q → emit p.log = some x → emit q.log = some y →
      R' ⟨p.block, p.logIndex, p.transactionHash, x⟩ ⟨q.block, q.logIndex, q.transactionHash, y⟩) :
    (placedEvents emit chain).Pairwise R' := by
  refine h.filterMap _ ?_
  intro p q hpq d hd e he
  obtain ⟨x, hx, rfl⟩ := Option.map_eq_some_iff.mp hd
  obtain ⟨y, hy, rfl⟩ := Option.map_eq_some_iff.mp he
  exact hR p q x y hpq hx hy

theorem older_placedEvents {X : Type} (emit : L → Option X) (h : chain.Pairwise Placed.Older) :
    (placedEvents emit chain).Pairwise Placed.Older :=
  pairwise_placedEvents h fun _ _ _ _ hpq _ _ => hpq

/-- Logs in the order of the comparison, and those of one rank in the order of the chain. -/
abbrev Shown (le : Placed L → Placed L → Bool) : Placed L → Placed L → Prop :=
  SortKey.thenBy (fun p q => le p q = true) Placed.Older

instance : Std.Asymm (Shown le) := ⟨fun _ _ h h' => (h.2 h'.1).asymm (h'.2 h.1)⟩

theorem pairwise_sorted (hle : NewestFirst le) {l : List (Placed L)} (h : l.Pairwise Placed.Older) :
    (l.mergeSort le).Pairwise (Shown le) :=
  SortKey.pairwise_mergeSort_stable hle.trans hle.total h

/-- What the batches bring, without a cut. -/
theorem all_perm (hchain : chain.Pairwise Placed.Older) (le : Placed L → Placed L → Bool)
    (picks : List (Placed L → Bool)) :
    (Feed.all Placed.key (fun l => l.mergeSort le) (picks.map chain.filter)).events.Perm
      (chain.filter (Picked picks)) := by
  have hsort : ∀ l : List (Placed L), (l.mergeSort le).Perm l := fun l => List.mergeSort_perm l le
  have hbatches : ∀ b ∈ picks.map chain.filter, (b.map Placed.key).Nodup := by
    intro b hb
    obtain ⟨pick, -, rfl⟩ := List.mem_map.mp hb
    exact nodup_keys hchain pick
  have hnodup : (chain.filter (Picked picks)).Nodup := .of_map Placed.key (nodup_keys hchain _)
  have hall := Feed.nodup_all hsort hbatches
  refine (List.perm_ext_iff_of_nodup (.of_map Placed.key hall) hnodup).mpr fun p => ?_
  rw [Feed.mem_all hsort (distinct_picks hchain picks), List.mem_filter, Picked, List.any_eq_true]
  constructor
  · rintro ⟨b, hb, hp⟩
    obtain ⟨pick, hpick, rfl⟩ := List.mem_map.mp hb
    exact ⟨(List.mem_filter.mp hp).1, pick, hpick, (List.mem_filter.mp hp).2⟩
  · rintro ⟨hp, pick, hpick, hin⟩
    exact ⟨_, List.mem_map_of_mem hpick, List.mem_filter.mpr ⟨hp, hin⟩⟩

theorem feedOf_exact (hchain : chain.Pairwise Placed.Older) (le : Placed L → Placed L → Bool)
    (cap : ℕ) (picks : List (Placed L → Bool)) : FeedExact le chain cap picks := by
  have hsort : ∀ l : List (Placed L), (l.mergeSort le).Perm l := fun l => List.mergeSort_perm l le
  have hperm := all_perm hchain le picks
  have hshown : feedOf le chain cap picks = (Feed.all Placed.key (fun l => l.mergeSort le)
      (picks.map chain.filter)).events.take cap := Feed.run_events hsort _
  have hnodup : (chain.filter (Picked picks)).Nodup := .of_map Placed.key (nodup_keys hchain _)
  refine ⟨?_, fun p hp => ?_, ?_, fun p hp hin hcut more => ?_⟩
  · rw [hshown]
    exact (hperm.nodup_iff.mpr hnodup).sublist (List.take_sublist _ _)
  · rw [hshown] at hp
    exact List.mem_filter.mp (hperm.mem_iff.mp (List.mem_of_mem_take hp))
  · rw [hshown, List.length_take, hperm.length_eq]
  · obtain ⟨pick, hpick, hin⟩ := List.any_eq_true.mp hin
    have hgone := Feed.gone hsort (distinct_picks hchain picks) (List.mem_map_of_mem hpick)
      (List.mem_filter.mpr ⟨hp, hin⟩) hcut (more.map chain.filter)
    rw [← List.map_append] at hgone
    exact hgone

/-! ## Deliveries of blocks -/

/-- The logs that the deliveries pick. -/
def byBlock (deliveries : List (ℕ → Bool)) : List (Placed L → Bool) :=
  deliveries.map fun blocks p => blocks p.block

theorem map_batch (chain : List (Placed L)) (deliveries : List (ℕ → Bool)) :
    deliveries.map (batch chain) = (byBlock deliveries).map chain.filter := by
  rw [byBlock, List.map_map]
  rfl

theorem picked_byBlock (deliveries : List (ℕ → Bool)) (p : Placed L) :
    Picked (byBlock deliveries) p = Delivered deliveries p.block := by
  rw [Picked, byBlock, List.any_map]
  rfl

theorem stream_eq_feedOf (le : Placed L → Placed L → Bool) (chain : List (Placed L)) (cap : ℕ)
    (deliveries : List (ℕ → Bool)) :
    stream le chain cap deliveries = feedOf le chain cap (byBlock deliveries) := by
  rw [stream, map_batch, feedOf]

theorem filter_byBlock (chain : List (Placed L)) (deliveries : List (ℕ → Bool)) :
    chain.filter (Picked (byBlock deliveries)) = batch chain (Delivered deliveries) :=
  List.filter_congr fun p _ => picked_byBlock deliveries p

/-- What is new to the stream in a delivery: the logs of blocks that were not delivered before. -/
theorem fresh_batch (hchain : chain.Pairwise Placed.Older) (le : Placed L → Placed L → Bool)
    (deliveries : List (ℕ → Bool)) (blocks : ℕ → Bool) :
    Feed.fresh Placed.key (Feed.all Placed.key (fun l => l.mergeSort le)
      (deliveries.map (batch chain))).seen (batch chain blocks) =
      batch chain fun b => blocks b && !Delivered deliveries b := by
  have hsort : ∀ l : List (Placed L), (l.mergeSort le).Perm l := fun l => List.mergeSort_perm l le
  rw [Feed.fresh, batch, List.filter_filter, batch]
  refine List.filter_congr fun p hp => ?_
  have hseen : p.key ∈ (Feed.all Placed.key (fun l => l.mergeSort le)
      (deliveries.map (batch chain))).seen ↔ Delivered deliveries p.block = true := by
    have hperm := all_perm hchain le (byBlock deliveries)
    rw [← map_batch, filter_byBlock] at hperm
    rw [(Feed.seen_all hsort _).mem_iff, (hperm.map _).mem_iff, List.mem_map]
    constructor
    · rintro ⟨q, hq, hkey⟩
      obtain ⟨hq, hin⟩ := mem_batch.mp hq
      exact eq_of_key_eq hchain hq hp hkey ▸ hin
    · exact fun hin => ⟨p, mem_batch.mpr ⟨hp, hin⟩, rfl⟩
  rw [Bool.eq_iff_iff]
  simp only [Bool.and_eq_true, decide_eq_true_eq, hseen, Bool.not_eq_true', Bool.not_eq_true]
  exact and_comm

/-- Later deliveries that keep the order put newer logs in front. -/
theorem stream_newest (hchain : chain.Pairwise Placed.Older) (hle : NewestFirst le)
    (horder : InOrder deliveries) :
    (Feed.all Placed.key (fun l => l.mergeSort le) (deliveries.map (batch chain))).events =
      (batch chain (Delivered deliveries)).mergeSort le := by
  have hsort : ∀ l : List (Placed L), (l.mergeSort le).Perm l := fun l => List.mergeSort_perm l le
  have hsub (blocks : ℕ → Bool) : (batch chain blocks).Pairwise Placed.Older :=
    hchain.sublist List.filter_sublist
  have hsorted : ∀ b ∈ deliveries.map (batch chain), ∀ seen,
      ((Feed.fresh Placed.key seen b).mergeSort le).Pairwise (Shown le) := by
    intro b hb seen
    obtain ⟨blocks, -, rfl⟩ := List.mem_map.mp hb
    exact pairwise_sorted hle ((hsub blocks).sublist List.filter_sublist)
  have hperm := all_perm hchain le (byBlock deliveries)
  rw [← map_batch, filter_byBlock] at hperm
  refine Feed.all_eq_sort hsort hsorted ?_ hperm (pairwise_sorted hle (hsub _))
  rw [List.pairwise_map]
  refine horder.imp fun {blocks later} h d hd e he hnew => ?_
  obtain ⟨hd, hin⟩ := mem_batch.mp hd
  obtain ⟨he, hin'⟩ := mem_batch.mp he
  have hout : blocks e.block = false := by
    by_contra hblock
    exact hnew (List.mem_map_of_mem (mem_batch.mpr ⟨he, Bool.not_eq_false _ ▸ hblock⟩))
  obtain ⟨hed, hde⟩ := hle.later e d (h _ _ hin hin' hout)
  exact ⟨hed, fun h => absurd (hde.symm.trans h) (by decide)⟩

theorem stream_exact (hchain : chain.Pairwise Placed.Older) (hle : NewestFirst le) (cap : ℕ)
    (deliveries : List (ℕ → Bool)) : StreamExact le chain cap deliveries := by
  have hsort : ∀ l : List (Placed L), (l.mergeSort le).Perm l := fun l => List.mergeSort_perm l le
  have hfeed := feedOf_exact hchain le cap (byBlock deliveries)
  have hstream := stream_eq_feedOf le chain cap deliveries
  refine ⟨?_, fun p hp => ?_, ?_, fun p hp hin hcut more => ?_, fun horder => ?_,
    fun blocks hfull p hp => ?_⟩
  · rw [hstream]
    exact hfeed.nodup
  · rw [hstream] at hp
    rw [← picked_byBlock]
    exact hfeed.mem p hp
  · rw [hstream, hfeed.length, filter_byBlock]
  · rw [hstream] at hcut
    rw [stream_eq_feedOf, byBlock, List.map_append]
    exact hfeed.gone p hp (picked_byBlock _ p ▸ hin) hcut _
  · have hrun : stream le chain cap deliveries = (Feed.all Placed.key (fun l => l.mergeSort le)
        (deliveries.map (batch chain))).events.take cap := Feed.run_events hsort _
    rw [hrun, stream_newest hchain hle horder]
  · rw [stream, List.map_append, List.map_singleton] at hp
    rw [← fresh_batch hchain le] at hfull
    exact (mem_batch.mp (Feed.shown_of_full hsort _ _ hfull hp)).2

/-- A hook that turns each log into an event, and tells and sorts the events as the feed does its
logs. -/
theorem run_feedOf {A : Type} {event : Placed L → A} (id : A → Str) (le' : A → A → Bool)
    (hid : ∀ p, id (event p) = p.key) (hle : ∀ p q, le' (event p) (event q) = le p q) (cap : ℕ)
    (chain : List (Placed L)) (picks : List (Placed L → Bool)) :
    (Feed.run id (fun l => l.mergeSort le') cap
      (picks.map fun pick => (chain.filter pick).map event)).events =
      (feedOf le chain cap picks).map event := by
  have hsort (l : List (Placed L)) : (l.map event).mergeSort le' = (l.mergeSort le).map event :=
    (List.map_mergeSort fun p _ q _ => (hle p q).symm).symm
  have hbatches : (picks.map fun pick => (chain.filter pick).map event) =
      (picks.map chain.filter).map (List.map event) := by
    rw [List.map_map]
    rfl
  rw [hbatches, Feed.run_map hid hsort, feedOf]

theorem run_stream {A : Type} {event : Placed L → A} (id : A → Str) (le' : A → A → Bool)
    (hid : ∀ p, id (event p) = p.key) (hle : ∀ p q, le' (event p) (event q) = le p q) (cap : ℕ)
    (chain : List (Placed L)) (deliveries : List (ℕ → Bool)) :
    (Feed.run id (fun l => l.mergeSort le') cap
      (deliveries.map fun blocks => (batch chain blocks).map event)).events =
      (stream le chain cap deliveries).map event := by
  have hrun := run_feedOf id le' hid hle cap chain (byBlock deliveries)
  rw [byBlock, List.map_map] at hrun
  rw [stream_eq_feedOf]
  exact hrun

end

end Web
end Arcane
