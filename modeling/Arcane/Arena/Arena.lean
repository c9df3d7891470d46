import Arcane.Arena.Runner
import Mathlib.Data.Rat.Defs
import Mathlib.Algebra.Order.Ring.Unbundled.Rat

/-!
# The arena

`agents/arena.py`: the pairs of a run, the steps of each duel, and the standings that are made of
the reports. What it prints is left out. Clock readings and waiting times are rational numbers, and
so is the resilience of an agent.
-/

namespace Arcane
namespace Arena

open Text Evm

/-- What the arena calls beside what its runners do. -/
structure ArenaSeams (D W : Type) extends Seams D W where
  /-- The new injections of a duel from a block on, and the block to go on from. -/
  pollInjections : Option (ℕ → ℕ → Py W (Injections × ℕ))
  monotonic : Py W ℚ
  sleep : ℚ → Py W Unit

structure Config where
  symbol : String
  cycles : ℕ
  durationSecs : ℕ
  bettingSecs : ℕ := 0
  penaltyBps : ℤ := 100
  settleBufferSecs : ℕ := 5
  /-- Zero: the cycles follow each other at once. -/
  cycleIntervalSecs : ℕ := 0

/-- `total_steps`. -/
def Config.totalSteps (c : Config) : ℕ :=
  if 0 < c.cycleIntervalSecs then
    -- the quotient is rounded up
    max c.cycles ((c.durationSecs + c.cycleIntervalSecs - 1) / c.cycleIntervalSecs)
  else c.cycles

/-! ## Standings -/

structure AgentStanding where
  address : Address
  alphaBps : ℤ
  ingested : ℕ
  survived : ℕ
  deriving DecidableEq

def AgentStanding.resilience (s : AgentStanding) : ℚ :=
  if s.ingested = 0 then 0 else s.survived / s.ingested

structure ArenaResult where
  duelIds : List ℕ
  standings : List AgentStanding
  reports : List CycleReport

/-- The standings by `alpha_bps`, the highest first. -/
def ArenaResult.alphaRanking (r : ArenaResult) : List AgentStanding :=
  r.standings.mergeSort fun x y => y.alphaBps ≤ x.alphaBps

/-- The standings by resilience, then by `alpha_bps`, the highest first. -/
def ArenaResult.shieldRanking (r : ArenaResult) : List AgentStanding :=
  r.standings.mergeSort fun x y =>
    y.resilience < x.resilience ∨ y.resilience = x.resilience ∧ y.alphaBps ≤ x.alphaBps

/-- The counters of one agent in `_aggregate`. -/
structure Slot where
  alphaBps : ℤ := 0
  ingested : ℕ := 0
  survived : ℕ := 0

def Slot.record (slot : Slot) (r : CycleReport) : Slot where
  alphaBps := slot.alphaBps + r.rBps
  ingested := if r.ingested then slot.ingested + 1 else slot.ingested
  survived := if r.ingested && r.survived then slot.survived + 1 else slot.survived

/-- The slots after all reports, in the order in which their agents first appear. -/
def slots (reports : List CycleReport) : Dict Address Slot :=
  reports.foldl (fun agg r => agg.set r.agent (((agg.get? r.agent).getD {}).record r)) ∅

/-- `_aggregate`. -/
def aggregate (reports : List CycleReport) : List AgentStanding :=
  (slots reports).items.map fun x => ⟨x.1, x.2.alphaBps, x.2.ingested, x.2.survived⟩

/-! ## Runs -/

/-- `_pairs`: with an odd number of duelists the last one sits out. -/
def pairs {D : Type} : List D → List (D × D)
  | a :: b :: duelists => (a, b) :: pairs duelists
  | _ => []

section Run

variable {D W : Type} (S : ArenaSeams D W) (c : Config)

/-- The configuration of the duel of two duelists. -/
def Config.duel (a b : D) : DuelConfig D where
  agentA := a
  agentB := b
  symbol := c.symbol
  bettingSecs := c.bettingSecs
  durationSecs := c.durationSecs
  penaltyBps := c.penaltyBps

/-- `_poll`: the new injections or the static ones, which also stand in when polling raises. -/
def poll (staticInj : Injections) (duelId fb : ℕ) : Py W (Injections × ℕ) :=
  match S.pollInjections with
  | none => return (staticInj, fb)
  | some pollInjections => do
    match ← Py.attempt (pollInjections duelId fb) with
    | some (polled, nfb) => return (if polled.items = [] then staticInj else polled, nfb)
    | none => return (staticInj, fb)

/-- A step of a duel: the reports of its cycle, if it has one, with `from_block` and `extra` after
it. After the scheduled cycles there is one only if there are injections. -/
def cycleStep (config : DuelConfig D) (duelId : ℕ) (staticInj : Injections)
    (step fromBlock extra : ℕ) : Py W (List CycleReport × ℕ × ℕ) := do
  let (cycleInj, fromBlock) ← poll S staticInj duelId fromBlock
  if step ≤ c.cycles then do
    let reports ← runCycle S.toSeams config duelId step cycleInj
    return (reports, fromBlock, extra)
  else if cycleInj.items = [] then return ([], fromBlock, extra)
  else do
    let reports ← runCycle S.toSeams config duelId (c.cycles + (extra + 1)) cycleInj
    return (reports, fromBlock, extra + 1)

/-- The sleep between two steps. -/
def pause (step : ℕ) : Py W Unit :=
  if 0 < c.cycleIntervalSecs ∧ step < c.totalSteps then S.sleep c.cycleIntervalSecs else return

/-- The wait for the rest of the trading window. -/
def settle (createdAt : ℚ) : Py W Unit := do
  let now ← S.monotonic
  let remaining := c.durationSecs - (now - createdAt) + c.settleBufferSecs
  if 0 < remaining then S.sleep remaining else return

/-- The steps from `step` on, of which `n` are left, and the wait after them: the reports of the
cycles that end before an exception, which ends the steps. -/
def steps (config : DuelConfig D) (duelId : ℕ) (staticInj : Injections) (createdAt : ℚ) :
    ℕ → ℕ → ℕ → ℕ → Py W (List CycleReport)
  | 0, _, _, _ => do
    let _ ← Py.attempt (settle S c createdAt)
    return []
  | n + 1, step, fromBlock, extra => do
    match ← Py.attempt (cycleStep S c config duelId staticInj step fromBlock extra) with
    | none => return []
    | some (reports, fromBlock, extra) =>
      match ← Py.attempt (pause S c step) with
      | none => return reports
      | some () => do
        let rest ← steps config duelId staticInj createdAt n (step + 1) fromBlock extra
        return reports ++ rest

/-- One duel of `run`: its id, and its reports. -/
def runDuel (staticInj : Injections) (a b : D) : Py W (ℕ × List CycleReport) := do
  let duelId ← create S.toSeams (c.duel a b)
  let createdAt ← S.monotonic
  let reports ← steps S c (c.duel a b) duelId staticInj createdAt c.totalSteps 1 0 0
  let _ ← Py.attempt (resolve S.toSeams duelId)
  return (duelId, reports)

/-- The duels of `run`; a pair for which there are no static injections has none. -/
def runDuels : List (D × D) → List Injections → Py W (List (ℕ × List CycleReport))
  | [], _ => return []
  | (a, b) :: duelists, injectionsPerDuel => do
    let duel ← runDuel S c (injectionsPerDuel.headD ∅) a b
    let duels ← runDuels duelists injectionsPerDuel.tail
    return duel :: duels

def run (duelists : List D) (injectionsPerDuel : List Injections) : Py W ArenaResult := do
  let duels ← runDuels S c (pairs duelists) injectionsPerDuel
  let reports := duels.flatMap (·.2)
  return ⟨duels.map (·.1), aggregate reports, reports⟩

end Run

end Arena
end Arcane
