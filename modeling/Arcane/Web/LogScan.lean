import Arcane.Lib.Windows

/-!
# The event scans of the web app

The public node answers a log query over at most 10000 blocks. `getContractEventsChunked`
(`web/apps/web/src/lib/arena.ts`) and `useArenaStandings` (`colosseum.ts`) cut the blocks they read
into windows with the same loop, ask for all of them, and put the answers together.

* `rangesLoop`: the loop, which gets `fuel` rounds.
* `rangesLoop_tiling`: with one round for each block it ends, with a tiling of the blocks.
* `scanEvents_node`: the answers of a node that keeps to its cap are all logs of these blocks, once
  and in their order.
-/

namespace Arcane
namespace Web

open Windows

/-- The blocks that one log query may span. -/
def rpcCap : ℤ := 10000

/-- `GETLOGS_MAX_RANGE` of `arena.ts`. -/
def getLogsMaxRange : ℤ := 9000

/-- `maxRange` of `useArenaStandings`. -/
def standingsMaxRange : ℤ := 9000

/-- `lookback` of `useArenaStandings`. -/
def standingsLookback : ℤ := 100000

def scanStart (head lookback : ℤ) : ℤ := if head > lookback then head - lookback else 0

/-- `while (from <= head)`, with `ranges` so far; `none` when `fuel` rounds do not suffice. -/
def rangesLoop (maxRange head : ℤ) : ℕ → ℤ → List Window → Option (List Window)
  | 0, _, _ => none
  | fuel + 1, fromBlock, ranges =>
    if fromBlock ≤ head then
      let toBlock := if fromBlock + maxRange < head then fromBlock + maxRange else head
      let ranges := ranges ++ [(fromBlock, toBlock)]
      if toBlock ≥ head then some ranges
      else rangesLoop maxRange head fuel (toBlock + 1) ranges
    else some ranges

/-- The windows of `getContractEventsChunked`. -/
def eventRanges (fuel : ℕ) (head lookback : ℤ) : Option (List Window) :=
  rangesLoop getLogsMaxRange head fuel (scanStart head lookback) []

/-- The windows of `useArenaStandings`. -/
def standingsRanges (fuel : ℕ) (head : ℤ) : Option (List Window) :=
  rangesLoop standingsMaxRange head fuel (scanStart head standingsLookback) []

/-- The logs that are read: a window whose query fails contributes nothing. -/
def scanEvents {Event : Type} (getContractEvents : Window → Option (List Event))
    (ranges : List Window) : List Event :=
  ranges.flatMap fun w => (getContractEvents w).getD []

theorem scanStart_eq (head lookback : ℤ) : scanStart head lookback = max 0 (head - lookback) := by
  rw [scanStart]
  split <;> omega

section Loop

variable {maxRange head lo fromBlock : ℤ} {ranges : List Window} {fuel : ℕ}

/-- What the loop keeps: the windows so far reach up to `fromBlock`. -/
structure Scanning (maxRange lo fromBlock : ℤ) (ranges : List Window) : Prop where
  tiling : Tiling lo (fromBlock - 1) ranges
  le : lo ≤ fromBlock
  width : ∀ w ∈ ranges, w.2 - w.1 ≤ maxRange

theorem Scanning.start : Scanning maxRange lo lo [] where
  tiling := .nil (by omega)
  le := le_refl lo
  width := by simp

theorem Scanning.push {toBlock : ℤ} (h : Scanning maxRange lo fromBlock ranges)
    (hle : fromBlock ≤ toBlock) (hmax : toBlock ≤ fromBlock + maxRange) :
    Scanning maxRange lo (toBlock + 1) (ranges ++ [(fromBlock, toBlock)]) where
  tiling := by
    have hlt : fromBlock - 1 < toBlock := by omega
    have ht := h.tiling.concat (by simpa using h.le) hlt
    rw [Int.add_sub_cancel]
    rwa [Int.sub_add_cancel] at ht
  le := by
    have := h.le
    omega
  width := by
    intro w hw
    rcases List.mem_append.mp hw with hw | hw
    · exact h.width w hw
    · obtain rfl := List.mem_singleton.mp hw
      show toBlock - fromBlock ≤ maxRange
      omega

/-- Each round ends the loop or takes a block at least. -/
theorem rangesLoop_of_scanning (hmax : 0 ≤ maxRange) (h : Scanning maxRange lo fromBlock ranges)
    (hfrom : fromBlock ≤ head) (hfuel : (head - fromBlock).toNat < fuel) :
    ∃ ws, rangesLoop maxRange head fuel fromBlock ranges = some ws ∧
      Scanning maxRange lo (head + 1) ws := by
  induction fuel generalizing fromBlock ranges with
  | zero => omega
  | succ fuel ih =>
    rw [rangesLoop, if_pos hfrom]
    by_cases hlast : fromBlock + maxRange < head
    · have hgo : ¬fromBlock + maxRange ≥ head := by omega
      simp only [if_pos hlast, if_neg hgo]
      exact ih (h.push (by omega) (le_refl _)) (by omega) (by omega)
    · simp only [if_neg hlast, ge_iff_le, le_refl, if_true]
      exact ⟨_, rfl, h.push hfrom (by omega)⟩

/-- With a round for each block the loop ends, with windows of at most `maxRange + 1` blocks. -/
theorem rangesLoop_tiling (hmax : 0 ≤ maxRange) (hfuel : (head - lo).toNat < fuel) :
    ∃ ws, rangesLoop maxRange head fuel lo [] = some ws ∧ Tiling lo head ws ∧
      ∀ w ∈ ws, w.2 - w.1 ≤ maxRange := by
  by_cases hlo : lo ≤ head
  · obtain ⟨ws, hws, h⟩ := rangesLoop_of_scanning hmax .start hlo hfuel
    have ht := h.tiling
    rw [Int.add_sub_cancel] at ht
    exact ⟨ws, hws, ht, h.width⟩
  · cases fuel with
    | zero => omega
    | succ fuel => exact ⟨[], by rw [rangesLoop, if_neg hlo], .nil (by omega), by simp⟩

/-- More rounds change nothing once the loop ends. -/
theorem rangesLoop_mono {ws : List Window} {more : ℕ}
    (h : rangesLoop maxRange head fuel fromBlock ranges = some ws) (hle : fuel ≤ more) :
    rangesLoop maxRange head more fromBlock ranges = some ws := by
  induction fuel generalizing fromBlock ranges more with
  | zero => exact absurd h (by simp [rangesLoop])
  | succ fuel ih =>
    obtain ⟨more, rfl⟩ : ∃ n, more = n + 1 := ⟨more - 1, by omega⟩
    rw [rangesLoop] at h ⊢
    simp only at h ⊢
    split_ifs at h ⊢ with hfrom _ hlast
    all_goals first
      | exact h
      | exact ih h (by omega)

theorem tiling_of_rangesLoop {ws : List Window} (hmax : 0 ≤ maxRange)
    (h : rangesLoop maxRange head fuel lo [] = some ws) :
    Tiling lo head ws ∧ ∀ w ∈ ws, w.2 - w.1 ≤ maxRange := by
  have hfuel : (head - lo).toNat < fuel + (head - lo).toNat + 1 := by omega
  obtain ⟨ws', hws, ht⟩ := rangesLoop_tiling hmax hfuel
  have hmore := rangesLoop_mono h (show fuel ≤ fuel + (head - lo).toNat + 1 by omega)
  obtain rfl := Option.some.inj (hws.symm.trans hmore)
  exact ht

end Loop

/-- What a scan over the blocks from `lo` to `hi` owes its reader and the public node. -/
structure CoversOnce (lo hi : ℤ) (ranges : List Window) : Prop where
  nonempty : ∀ w ∈ ranges, w.1 ≤ w.2
  consecutive : ranges.IsChain fun v w => w.1 = v.2 + 1
  disjoint : ranges.Pairwise fun v w => ∀ b, ¬(v.Holds b ∧ w.Holds b)
  cover : ∀ b, (∃ w ∈ ranges, w.Holds b) ↔ lo ≤ b ∧ b ≤ hi
  once : ∀ b, ranges.countP (fun w => w.Holds b) = if lo ≤ b ∧ b ≤ hi then 1 else 0
  capped : ∀ w ∈ ranges, w.2 - w.1 + 1 ≤ rpcCap

theorem coversOnce_of_tiling {lo hi maxRange : ℤ} {ws : List Window} (h : Tiling lo hi ws)
    (hmax : maxRange < rpcCap) (hw : ∀ w ∈ ws, w.2 - w.1 ≤ maxRange) : CoversOnce lo hi ws where
  nonempty w hm := (h.bounds w hm).2.1
  consecutive := h.chain
  disjoint := h.pairwise.imp fun {v w} hlt b hb => by
    have := hb.1.2
    have := hb.2.1
    omega
  cover _ := h.mem_iff
  once := h.countP
  capped w hm := by
    have := hw w hm
    omega

/-- The windows that the loop of a scan builds, whatever the height and the lookback. -/
theorem exists_rangesLoop {maxRange : ℤ} (h₀ : 0 ≤ maxRange) (hmax : maxRange < rpcCap)
    (head lookback : ℤ) :
    ∃ ranges, CoversOnce (max 0 (head - lookback)) head ranges ∧
      ∃ rounds, ∀ fuel ≥ rounds,
        rangesLoop maxRange head fuel (scanStart head lookback) [] = some ranges := by
  rw [scanStart_eq]
  have hfuel := Nat.lt_succ_self (head - max 0 (head - lookback)).toNat
  obtain ⟨ws, hws, ht, hw⟩ := rangesLoop_tiling h₀ hfuel
  exact ⟨ws, coversOnce_of_tiling ht hmax hw, _, fun _ hfuel => rangesLoop_mono hws hfuel⟩

/-- The windows of both scans are non-empty, consecutive and disjoint, cover the blocks from
`max 0 (head - lookback)` to `head` and no other, and keep to the cap of the node; the loop that
builds them ends. -/
theorem ranges_coversOnce (head lookback : ℤ) :
    (∃ ranges, CoversOnce (max 0 (head - lookback)) head ranges ∧
      ∃ rounds, ∀ fuel ≥ rounds, eventRanges fuel head lookback = some ranges) ∧
    (∃ ranges, CoversOnce (max 0 (head - standingsLookback)) head ranges ∧
      ∃ rounds, ∀ fuel ≥ rounds, standingsRanges fuel head = some ranges) :=
  ⟨exists_rangesLoop (by decide) (by decide) head lookback,
    exists_rangesLoop (by decide) (by decide) head standingsLookback⟩

example : eventRanges 2 20000 15000 = some [(5000, 14000), (14001, 20000)] := rfl

section Node

variable {Event : Type}

/-- A node that holds `chain` and keeps to its cap. -/
def node (chain : List Event) (blockNumber : Event → ℤ) (w : Window) : Option (List Event) :=
  if w.2 - w.1 + 1 ≤ rpcCap then some (chain.filter fun e => w.Holds (blockNumber e)) else none

/-- From such a node the scan gets each log of its blocks once, in the order of the chain. -/
theorem scanEvents_node {chain : List Event} {blockNumber : Event → ℤ} {head lookback : ℤ}
    {fuel : ℕ} {ranges : List Window}
    (hchain : chain.Pairwise fun d e => blockNumber d ≤ blockNumber e)
    (h : eventRanges fuel head lookback = some ranges) :
    scanEvents (node chain blockNumber) ranges =
      chain.filter fun e => max 0 (head - lookback) ≤ blockNumber e ∧ blockNumber e ≤ head := by
  obtain ⟨ht, hw⟩ := tiling_of_rangesLoop (by decide) h
  rw [scanStart_eq] at ht
  refine Eq.trans ?_ (ht.flatMap_filter hchain)
  -- No window is refused.
  refine List.flatMap_congr fun w hm => ?_
  have hcap : w.2 - w.1 + 1 ≤ rpcCap := by
    have := hw w hm
    simp only [getLogsMaxRange, rpcCap] at this ⊢
    omega
  rw [node, if_pos hcap, Option.getD_some]

end Node

end Web
end Arcane
