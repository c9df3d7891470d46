import Arcane.Arena.Frame
import Arcane.Colosseum.Counters
import Arcane.Colosseum.Solvency
import Mathlib.Data.List.Infix

/-!
# The books of the arena and of the chain

The chain counts a call when it is accepted, the arena when its cycle ends. Between the two a cycle
may raise: its reports are dropped, and what the chain accepted of it stays.

* `Chain`, `Gains`: the Colosseum in the world of the arena, and the scores that a part of a run
  adds.
* `Backed`: nobody but the runner reports, and a receipt of status 1 is one of an accepted call.
* `lost`: the scores that were accepted in the cycles of a run that raise.
* `slot_tally`: the standings are the sums over the reports.
* `agrees_iff`: the books agree on an agent if and only if its lost scores are none, or sum to zero.
-/

namespace Arcane
namespace Arena

open Evm Py
open Colosseum (Score Tally tally accepted)

/-- The Colosseum in the world of the arena: its state, and the accepted calls that led to it. -/
structure Chain (C : Colosseum.Config) (W : Type) where
  start : Colosseum.State
  deployed : Colosseum.Deployed C start
  history : W → List (Trace.Step Colosseum.State Colosseum.Event)
  state : W → Colosseum.State
  run : ∀ w, Colosseum.Run C start (history w) (state w)

namespace Chain

variable {C : Colosseum.Config} {W : Type} (chain : Chain C W)

/-- The scores that were accepted so far. -/
def scores (w : W) : List Score := accepted (chain.history w)

/-- The scores that were accepted from one world to the other. -/
def Gains (xs : List Score) (w w' : W) : Prop := chain.scores w' = chain.scores w ++ xs

/-- The scores of a world that are not those of an earlier one. -/
def since (w w' : W) : List Score := (chain.scores w').drop (chain.scores w).length

end Chain

/-- What the call of `reportCall` for the report says. -/
def CycleReport.score (r : CycleReport) : Score := ⟨r.agent, r.rBps, r.ingested, r.survived⟩

/-- The standing of an agent; one without a report has none, and its counters are zero. -/
def ArenaResult.standing (r : ArenaResult) (agent : Address) : AgentStanding :=
  (r.standings.find? (·.address = agent)).getD ⟨agent, 0, 0, 0⟩

/-- The standing of the agent has the sums of the chain. -/
structure Agrees {C : Colosseum.Config} {W : Type} (chain : Chain C W) (w : W) (r : ArenaResult)
    (agent : Address) : Prop where
  alphaBps : (r.standing agent).alphaBps =
    (((chain.scores w).filter (·.agent = agent)).map (·.rBps)).sum
  ingested : (r.standing agent).ingested = (chain.state w).injectionsIngested agent
  survived : (r.standing agent).survived = (chain.state w).survivedInjections agent

/-! ## The seams and the chain -/

/-- The seams but for `reportCall`. -/
def ArenaSeams.unreported {D W : Type} (S : ArenaSeams D W) : ArenaSeams D W :=
  { S with
    send := fun call =>
      match call with
      | .reportCall .. => raise
      | call => S.send call }

/-- Nothing but a `reportCall` of the runner adds a score. That adds its own score, or none; if it
returns with status 1, it was accepted. -/
structure Backed {C : Colosseum.Config} {D W : Type} (chain : Chain C W) (S : ArenaSeams D W) :
    Prop where
  quiet : Keeps (chain.Gains []) S.unreported
  report : ∀ duelId agent injectionId rBps ingested survived failed w o w',
    S.send (.reportCall duelId agent injectionId rBps ingested survived failed) w = (o, w') →
    chain.Gains [⟨agent, rBps, ingested, survived⟩] w w' ∨
      chain.Gains [] w w' ∧ ∀ receipt, o = some receipt → receipt.status ≠ 1

section Lost

variable {C : Colosseum.Config} {D W : Type} (chain : Chain C W) (S : ArenaSeams D W) (c : Config)

/-- The scores that are accepted in the step that raises, if one of `n` steps does. -/
def lostSteps (config : DuelConfig D) (duelId : ℕ) (staticInj : Injections) :
    ℕ → ℕ → ℕ → ℕ → W → List Score
  | 0, _, _, _, _ => []
  | n + 1, step, fromBlock, extra, w =>
    match cycleStep S c config duelId staticInj step fromBlock extra w with
    | (none, w') => chain.since w w'
    | (some (_, fromBlock, extra), w₁) =>
      match pause S c step w₁ with
      | (none, _) => []
      | (some (), w₂) => lostSteps config duelId staticInj n (step + 1) fromBlock extra w₂

def lostDuel (staticInj : Injections) (a b : D) (w : W) : List Score :=
  match create S.toSeams (c.duel a b) w with
  | (none, _) => []
  | (some duelId, w₁) =>
    match S.monotonic w₁ with
    | (none, _) => []
    | (some _, w₂) => lostSteps chain S c (c.duel a b) duelId staticInj c.totalSteps 1 0 0 w₂

/-- The scores that are accepted in the cycles of the duels that raise. -/
def lost : List (D × D) → List Injections → W → List Score
  | [], _, _ => []
  | (a, b) :: duelists, injectionsPerDuel, w =>
    lostDuel chain S c (injectionsPerDuel.headD ∅) a b w ++
      match runDuel S c (injectionsPerDuel.headD ∅) a b w with
      | (none, _) => []
      | (some _, w₁) => lost duelists injectionsPerDuel.tail w₁

end Lost

/-! ## The scores of a run -/

namespace Chain.Gains

variable {C : Colosseum.Config} {W : Type} {chain : Chain C W} {xs ys : List Score} {w w₁ w' : W}

theorem refl : chain.Gains [] w w := (List.append_nil _).symm

theorem trans (h : chain.Gains xs w w₁) (h' : chain.Gains ys w₁ w') :
    chain.Gains (xs ++ ys) w w' := by
  rw [Gains, h', h, List.append_assoc]

/-- What is quiet before changes nothing. -/
theorem quiet (h : chain.Gains [] w w₁) (h' : chain.Gains xs w₁ w') : chain.Gains xs w w' :=
  h.trans h'

/-- What is quiet after changes nothing. -/
theorem rest (h : chain.Gains xs w w₁) (h' : chain.Gains [] w₁ w') : chain.Gains xs w w' := by
  have hgains := h.trans h'
  rwa [List.append_nil] at hgains

theorem since (h : chain.scores w <+: chain.scores w') : chain.Gains (chain.since w w') w w' :=
  (List.prefix_iff_eq_append.mp h).symm

theorem tally (h : chain.Gains xs w w') (agent : Address) :
    tally agent (chain.scores w') = tally agent (chain.scores w) + tally agent xs := by
  rw [h, Colosseum.tally_append]

end Chain.Gains

namespace Backed

variable {C : Colosseum.Config} {D W : Type} {chain : Chain C W} {S : ArenaSeams D W} {c : Config}
  {config : DuelConfig D} {duelId : ℕ} {agent : D}

/-- Nothing takes a score back. -/
theorem grows (h : Backed chain S) : Keeps (fun w w' => chain.scores w <+: chain.scores w') S := by
  have hquiet {α : Type} {x : Py W α} (hx : Within (chain.Gains []) x) :
      Within (fun w w' => chain.scores w <+: chain.scores w') x := by
    intro w
    rw [hx w, List.append_nil]
  refine {
    refl := fun w => List.prefix_refl _
    trans := fun _ _ _ => List.IsPrefix.trans
    send := fun call => ?_
    decide := fun _ _ _ _ => hquiet (h.quiet.decide _ _ _ _)
    remember := fun _ _ _ _ _ => hquiet (h.quiet.remember _ _ _ _ _)
    memoryRoot := fun _ => hquiet (h.quiet.memoryRoot _)
    realMove := fun _ => hquiet (h.quiet.realMove _)
    anchor := fun anchor hanchor _ _ => hquiet (h.quiet.anchor anchor hanchor _ _)
    pollInjections := fun poll hpoll _ _ => hquiet (h.quiet.pollInjections poll hpoll _ _)
    monotonic := hquiet h.quiet.monotonic
    sleep := fun _ => hquiet (h.quiet.sleep _) }
  cases call with
  | reportCall duelId agent injectionId rBps ingested survived failed =>
    intro w
    obtain hgains | ⟨hgains, -⟩ := h.report duelId agent injectionId rBps ingested survived failed
      w _ _ rfl
    · exact ⟨_, hgains.symm⟩
    · exact ⟨_, hgains.symm⟩
  | createDuel _ _ _ _ => exact hquiet (h.quiet.send (.createDuel ..))
  | reportReasoning _ _ _ _ _ _ => exact hquiet (h.quiet.send (.reportReasoning ..))
  | resolve _ => exact hquiet (h.quiet.send (.resolve _))

section Quiet

theorem answer (h : Backed chain S) {brief : String} {inj : Option Injection} :
    Within (chain.Gains []) (attempt (answer S.toSeams config agent brief inj)) :=
  h.quiet.answer.attempt

theorem reasoning (h : Backed chain S) {a : Address} {cycle : ℕ} {ingested survived : Bool}
    {text : String} : Within (chain.Gains [])
      (S.send (.reportReasoning duelId a cycle ingested survived text)) :=
  h.quiet.send (.reportReasoning ..)

theorem create (h : Backed chain S) : Within (chain.Gains []) (create S.toSeams config) :=
  h.quiet.create

theorem resolve (h : Backed chain S) :
    Within (chain.Gains []) (attempt (resolve S.toSeams duelId)) := h.quiet.resolve.attempt

theorem anchorRoots (h : Backed chain S) {cycle : ℕ} :
    Within (chain.Gains []) (anchorRoots S.toSeams config cycle) := h.quiet.anchorRoots

theorem poll (h : Backed chain S) {staticInj : Injections} {fb : ℕ} :
    Within (chain.Gains []) (poll S staticInj duelId fb) := h.quiet.poll

theorem pause (h : Backed chain S) {step : ℕ} : Within (chain.Gains []) (pause S c step) :=
  h.quiet.pause

theorem settle (h : Backed chain S) {createdAt : ℚ} :
    Within (chain.Gains []) (attempt (settle S c createdAt)) := h.quiet.settle.attempt

end Quiet

section Runs

variable {w w' : W} {cycle step fromBlock extra : ℕ} {realMove : ℤ} {brief : String}
  {injections staticInj : Injections} {a b : D}

/-- A report is made of an accepted call, and of that only. -/
theorem gains_reportAgent (h : Backed chain S) {r : CycleReport}
    (hx : reportAgent S.toSeams config duelId cycle realMove brief injections agent w =
      (some r, w')) : chain.Gains [r.score] w w' := by
  obtain ⟨answered, w₁, hanswer, hx⟩ := bind_eq_some.mp hx
  obtain ⟨receipt, w₂, hsend, hx⟩ := bind_eq_some.mp hx
  split at hx
  · cases hx
  · next hstatus =>
    obtain ⟨_, w₃, hreasoning, hx⟩ := bind_eq_some.mp hx
    obtain ⟨_, w₄, hremember, hx⟩ := bind_eq_some.mp hx
    obtain ⟨hr, rfl⟩ := pure_eq.mp hx
    obtain rfl := Option.some.inj hr
    have hremembered := (h.quiet.remember _ _ _ _ _).eq hremember
    refine (h.answer.eq hanswer).quiet (.rest ?_ ((h.reasoning.eq hreasoning).quiet hremembered))
    obtain hgains | ⟨-, hne⟩ := h.report _ _ _ _ _ _ _ _ _ _ hsend
    · exact hgains
    · exact absurd (not_not.mp hstatus) (hne receipt rfl)

theorem gains_runCycle (h : Backed chain S) {reports : List CycleReport}
    (hx : runCycle S.toSeams config duelId cycle injections w = (some reports, w')) :
    chain.Gains (reports.map (·.score)) w w' := by
  obtain ⟨realMove, w₁, hmove, hx⟩ := bind_eq_some.mp hx
  obtain ⟨reportA, w₂, hA, hx⟩ := bind_eq_some.mp hx
  obtain ⟨reportB, w₃, hB, hx⟩ := bind_eq_some.mp hx
  obtain ⟨_, w₄, hroots, hx⟩ := bind_eq_some.mp hx
  obtain ⟨hr, rfl⟩ := pure_eq.mp hx
  obtain rfl := Option.some.inj hr
  refine Chain.Gains.quiet ((h.quiet.realMove _).eq hmove) (.rest ?_ (h.anchorRoots.eq hroots))
  exact (h.gains_reportAgent hA).trans (h.gains_reportAgent hB)

theorem gains_cycleStep (h : Backed chain S) {x : List CycleReport × ℕ × ℕ}
    (hx : cycleStep S c config duelId staticInj step fromBlock extra w = (some x, w')) :
    chain.Gains (x.1.map (·.score)) w w' := by
  obtain ⟨polled, w₁, hpoll, hx⟩ := bind_eq_some.mp hx
  refine Chain.Gains.quiet (h.poll.eq hpoll) ?_
  dsimp only at hx
  split at hx
  · obtain ⟨reports, w₂, hcycle, hx⟩ := bind_eq_some.mp hx
    obtain ⟨hr, rfl⟩ := pure_eq.mp hx
    obtain rfl := Option.some.inj hr
    exact h.gains_runCycle hcycle
  · split at hx
    · obtain ⟨hr, rfl⟩ := pure_eq.mp hx
      obtain rfl := Option.some.inj hr
      exact .refl
    · obtain ⟨reports, w₂, hcycle, hx⟩ := bind_eq_some.mp hx
      obtain ⟨hr, rfl⟩ := pure_eq.mp hx
      obtain rfl := Option.some.inj hr
      exact h.gains_runCycle hcycle

/-- The steps of a duel add the scores of its reports, and those that are lost. -/
theorem gains_steps (h : Backed chain S) {createdAt : ℚ} {n : ℕ} {reports : List CycleReport}
    (hx : steps S c config duelId staticInj createdAt n step fromBlock extra w =
      (some reports, w')) :
    chain.Gains (reports.map (·.score) ++
      lostSteps chain S c config duelId staticInj n step fromBlock extra w) w w' := by
  induction n generalizing step fromBlock extra w reports with
  | zero =>
    obtain ⟨_, w₁, hsettle, hx⟩ := bind_eq_some.mp hx
    obtain ⟨hr, rfl⟩ := pure_eq.mp hx
    obtain rfl := Option.some.inj hr
    exact h.settle.eq hsettle
  | succ n ih =>
    obtain ⟨o, w₁, hstep, hx⟩ := bind_eq_some.mp hx
    obtain ⟨o, ho, hstep⟩ := attempt_eq_some.mp hstep
    obtain rfl := Option.some.inj ho
    cases o with
    | none =>
      obtain ⟨hr, rfl⟩ := pure_eq.mp hx
      obtain rfl := Option.some.inj hr
      rw [lostSteps, hstep]
      exact .since (h.grows.cycleStep.eq hstep)
    | some x =>
      obtain ⟨o, w₂, hpause, hx⟩ := bind_eq_some.mp hx
      obtain ⟨o, ho, hpause⟩ := attempt_eq_some.mp hpause
      obtain rfl := Option.some.inj ho
      have hgains := (h.gains_cycleStep hstep).rest (h.pause.eq hpause)
      cases o with
      | none =>
        obtain ⟨hr, rfl⟩ := pure_eq.mp hx
        obtain rfl := Option.some.inj hr
        simpa only [lostSteps, hstep, hpause, List.append_nil] using hgains
      | some u =>
        obtain ⟨rest, w₃, hrest, hx⟩ := bind_eq_some.mp hx
        obtain ⟨hr, rfl⟩ := pure_eq.mp hx
        obtain rfl := Option.some.inj hr
        simpa only [lostSteps, hstep, hpause, List.map_append, List.append_assoc]
          using hgains.trans (ih hrest)

theorem gains_runDuel (h : Backed chain S) {x : ℕ × List CycleReport}
    (hx : runDuel S c staticInj a b w = (some x, w')) :
    chain.Gains (x.2.map (·.score) ++ lostDuel chain S c staticInj a b w) w w' := by
  obtain ⟨duelId, w₁, hcreate, hx⟩ := bind_eq_some.mp hx
  obtain ⟨createdAt, w₂, hnow, hx⟩ := bind_eq_some.mp hx
  obtain ⟨reports, w₃, hsteps, hx⟩ := bind_eq_some.mp hx
  obtain ⟨_, w₄, hresolve, hx⟩ := bind_eq_some.mp hx
  obtain ⟨hr, rfl⟩ := pure_eq.mp hx
  obtain rfl := Option.some.inj hr
  have hgains := (h.gains_steps hsteps).rest (h.resolve.eq hresolve)
  simp only [lostDuel, hcreate, hnow]
  exact (h.create.eq hcreate).quiet (.quiet (h.quiet.monotonic.eq hnow) hgains)

/-- The duels of a run add the sums of their reports, and those of the lost scores. -/
theorem tally_runDuels (h : Backed chain S) (agent : Address) {ps : List (D × D)}
    {injectionsPerDuel : List Injections} {duels : List (ℕ × List CycleReport)}
    (hx : runDuels S c ps injectionsPerDuel w = (some duels, w')) :
    tally agent (chain.scores w') = tally agent (chain.scores w) +
      (tally agent ((duels.flatMap (·.2)).map (·.score)) +
        tally agent (lost chain S c ps injectionsPerDuel w)) := by
  induction ps generalizing injectionsPerDuel w duels with
  | nil =>
    obtain ⟨hr, rfl⟩ := pure_eq.mp hx
    obtain rfl := Option.some.inj hr
    simp [lost]
  | cons p ps ih =>
    obtain ⟨duel, w₁, hduel, hx⟩ := bind_eq_some.mp hx
    obtain ⟨rest, w₂, hrest, hx⟩ := bind_eq_some.mp hx
    obtain ⟨hr, rfl⟩ := pure_eq.mp hx
    obtain rfl := Option.some.inj hr
    rw [ih hrest, (h.gains_runDuel hduel).tally]
    simp only [lost, hduel, List.flatMap_cons, List.map_append, Colosseum.tally_append]
    rw [add_assoc, add_add_add_comm]

end Runs

end Backed

/-! ## The standings -/

section Standings

variable {reports : List CycleReport} {agent : Address}

/-- The counters of a slot as sums. -/
def Slot.tally (slot : Slot) : Tally := (slot.alphaBps, slot.ingested, slot.survived)

theorem Slot.tally_record (slot : Slot) (r : CycleReport) :
    (slot.record r).tally = slot.tally + r.score.tally r.agent := by
  cases hing : r.ingested <;> cases hsurv : r.survived <;>
    simp [Slot.tally, Slot.record, Score.tally, CycleReport.score, hing, hsurv]

/-- The slot of an agent has the sums over its reports. -/
theorem slot_tally : (((slots reports).get? agent).getD {}).tally =
    tally agent (reports.map (·.score)) := by
  induction reports using List.reverseRecOn with
  | nil => rfl
  | append_singleton reports r ih =>
    rw [slots, List.foldl_append, List.foldl_cons, List.foldl_nil, Dict.get?_set, List.map_append,
      Colosseum.tally_append, ← ih]
    split
    · next heq =>
      subst heq
      rw [Option.getD_some, Slot.tally_record]
      simp [slots]
    · next hne =>
      simp [slots, Score.tally, CycleReport.score, Ne.symm hne]

theorem standing_eq (ids : List ℕ) :
    (ArenaResult.mk ids (aggregate reports) reports).standing agent =
    let slot := ((slots reports).get? agent).getD {}
    ⟨agent, slot.alphaBps, slot.ingested, slot.survived⟩ := by
  rw [ArenaResult.standing, aggregate, List.find?_map, Dict.get?]
  simp only [Function.comp_def]
  cases hfind : (slots reports).items.find? fun x => x.1 = agent with
  | none => rfl
  | some x =>
    have haddress : x.1 = agent := by simpa using List.find?_some hfind
    simp [haddress]

end Standings

section Agreement

variable {C : Colosseum.Config} {D W : Type} {chain : Chain C W} {S : ArenaSeams D W} {c : Config}
  {agent : Address}

theorem fst_tally (xs : List Score) :
    (tally agent xs).1 = ((xs.filter (·.agent = agent)).map (·.rBps)).sum := by
  induction xs with
  | nil => rfl
  | cons x xs ih =>
    rw [Colosseum.tally_cons, Prod.fst_add, ih, Score.tally]
    by_cases hx : x.agent = agent <;> simp [hx]

/-- The books agree on an agent if its standing has the sums over its accepted scores. -/
theorem agrees_iff_tally {w : W} {r : ArenaResult} : Agrees chain w r agent ↔
    ((r.standing agent).alphaBps, (r.standing agent).ingested, (r.standing agent).survived) =
      tally agent (chain.scores w) := by
  have hcounters : (chain.state w).counters agent = (tally agent (accepted (chain.history w))).2 :=
    Colosseum.counters_eq_tally chain.deployed (chain.run w)
  rw [← Prod.mk.eta (p := tally agent (chain.scores w)), fst_tally, Chain.scores, ← hcounters]
  simp only [Colosseum.State.counters, Prod.mk.injEq]
  constructor
  · rintro ⟨halpha, hing, hsurv⟩
    exact ⟨halpha, hing, hsurv⟩
  · rintro ⟨halpha, hing, hsurv⟩
    exact ⟨halpha, hing, hsurv⟩

/-- The books agree on an agent without earlier scores if and only if its scores that were lost sum
to zero. -/
theorem agrees_iff (h : Backed chain S) {duelists : List D} {injectionsPerDuel : List Injections}
    {w w' : W} {r : ArenaResult} (hfresh : ∀ x ∈ chain.scores w, x.agent ≠ agent)
    (hrun : run S c duelists injectionsPerDuel w = (some r, w')) :
    Agrees chain w' r agent ↔
      tally agent (lost chain S c (pairs duelists) injectionsPerDuel w) = 0 := by
  obtain ⟨duels, w₁, hduels, hrun⟩ := bind_eq_some.mp hrun
  obtain ⟨hr, rfl⟩ := pure_eq.mp hrun
  obtain rfl := Option.some.inj hr
  have htally := h.tally_runDuels agent hduels
  rw [Colosseum.tally_eq_zero hfresh, zero_add, ← slot_tally] at htally
  rw [agrees_iff_tally, htally, standing_eq]
  exact left_eq_add

end Agreement

namespace Agrees.Demo

/-- The Colosseum, with the run that led to its state. -/
structure Books where
  history : List (Trace.Step Colosseum.State Colosseum.Event)
  state : Colosseum.State
  run : Colosseum.Run Colosseum.Demo.config Colosseum.Demo.start history state

def chain : Chain Colosseum.Demo.config Books where
  start := Colosseum.Demo.start
  deployed := Colosseum.Demo.deployed
  history := Books.history
  state := Books.state
  run := Books.run

/-- The call on the chain; `reportReasoning` only emits an event. -/
def request : Sent → Option (Msg × Colosseum.Call)
  | .createDuel agentA agentB bettingSecs tradingSecs =>
    some (.of 0xBEEF 2, .createDuel agentA agentB bettingSecs tradingSecs)
  | .reportCall duelId agent injectionId rBps ingested survived failed =>
    some (.of 0xBEEF 5, .reportCall duelId agent injectionId rBps ingested survived failed)
  | .reportReasoning .. => none
  | .resolve duelId => some (.of 0xBEEF 30, .resolve duelId)

/-- The calls for which `down` holds do not reach the chain. -/
def send (down : Sent → Bool) (call : Sent) : Py Books Receipt := fun w =>
  if down call then (none, w)
  else
    match request call with
    | none => (some ⟨1, none⟩, w)
    | some i =>
      match h : Colosseum.accept Colosseum.Demo.config w.state i with
      | none => (some ⟨0, none⟩, w)
      | some (e, s) => (some ⟨1, some e.ret⟩,
          ⟨w.history ++ [⟨w.state, e, s⟩], s, w.run.snoc e (Colosseum.accept_step h)⟩)

def reporting (down : Sent → Bool) : ArenaSeams Address Books where
  address := id
  send := send down
  decide _ _ _ _ := pure ⟨1, "long"⟩
  remember _ _ _ _ _ := pure ()
  memoryRoot _ := pure []
  realMove _ := pure 10
  anchor := none
  pollInjections := none
  monotonic := pure 0
  sleep _ := pure ()

/-- Two cycles, without pauses. -/
def rounds : Config := { symbol := "SOL", cycles := 2, durationSecs := 10 }

/-- An injection on the first agent. -/
def wipe : Injections :=
  (∅ : Injections).set 0xA1 { itemKind := itemMemoryWipe, target := 0xA1, spectator := 0xE1 }

/-- The two agents are registered. -/
def registered : Books :=
  match h : Colosseum.play Colosseum.Demo.config Colosseum.Demo.start
    (Colosseum.Demo.funding ++ [(.of 0xDA 1, .registerAgent 0xA1),
      (.of 0xDB 1, .registerAgent 0xA2)]) with
  | none => ⟨[], _, .nil⟩
  | some r => ⟨r.1, r.2, Colosseum.Run.of_play h⟩

/-- A call adds what it says, if it is accepted. -/
theorem gains_send {down : Sent → Bool} {call : Sent} {w w' : Books} {o : Option Receipt}
    (hx : send down call w = (o, w')) :
    chain.Gains ((request call).bind (·.2.score)).toList w w' ∨ w' = w ∧
      ∀ i, request call = some i → ∀ receipt, o = some receipt → receipt.status ≠ 1 := by
  unfold send at hx
  split at hx
  · obtain ⟨rfl, rfl⟩ := Prod.mk.inj hx
    exact .inr ⟨rfl, fun _ _ _ h => nomatch h⟩
  · split at hx
    · next hrequest =>
      obtain ⟨rfl, rfl⟩ := Prod.mk.inj hx
      rw [hrequest]
      exact .inl .refl
    · next i hrequest =>
      split at hx
      · obtain ⟨rfl, rfl⟩ := Prod.mk.inj hx
        refine .inr ⟨rfl, fun _ _ receipt h => ?_⟩
        rw [← Option.some.inj h]
        decide
      · next e s haccept =>
        obtain ⟨rfl, rfl⟩ := Prod.mk.inj hx
        left
        rw [Chain.Gains, hrequest, Option.bind_some, ← Colosseum.accept_call haccept]
        cases hscore : e.call.score <;>
          simp [chain, Chain.scores, accepted, hscore]

theorem quiet_send {down : Sent → Bool} {call : Sent}
    (h : (request call).bind (·.2.score) = none) : Within (chain.Gains []) (send down call) := by
  intro w
  obtain hgains | ⟨heq, -⟩ := gains_send (Prod.mk.eta (p := send down call w)).symm
  · rwa [h] at hgains
  · rw [heq]
    exact .refl

theorem backed (down : Sent → Bool) : Backed chain (reporting down) where
  quiet := {
    refl := fun _ => .refl
    trans := fun _ _ _ => .quiet
    send := fun call => by
      cases call with
      | reportCall => exact fun _ => .refl
      | createDuel => exact quiet_send rfl
      | reportReasoning => exact quiet_send rfl
      | resolve => exact quiet_send rfl
    decide := fun _ _ _ _ _ => .refl
    remember := fun _ _ _ _ _ _ => .refl
    memoryRoot := fun _ _ => .refl
    realMove := fun _ _ => .refl
    anchor := nofun
    pollInjections := nofun
    monotonic := fun _ => .refl
    sleep := fun _ _ => .refl }
  report := fun _ _ _ _ _ _ _ w _ w' hx => by
    obtain hgains | ⟨rfl, hne⟩ := gains_send hx
    · exact .inl hgains
    · exact .inr ⟨.refl, hne _ rfl⟩

/-- Both agents registered, and neither has a score. -/
theorem fresh : chain.scores registered = [] := by decide

/-- With no call failing, the books agree on the agent that is injected. -/
theorem reported_agrees : ∃ r w', run (reporting fun _ => false) rounds [(0xA1 : Address), 0xA2]
      [wipe] registered = (some r, w') ∧ r.standing 0xA1 = ⟨0xA1, 20, 2, 2⟩ ∧
    Agrees chain w' r 0xA1 := by
  have hstanding : (run (reporting fun _ => false) rounds [(0xA1 : Address), 0xA2] [wipe]
      registered).1.map (·.standing 0xA1) = some ⟨0xA1, 20, 2, 2⟩ := by decide
  obtain ⟨r, hr, hs⟩ := Option.map_eq_some_iff.mp hstanding
  refine ⟨r, _, Prod.ext hr rfl, hs, (agrees_iff (backed _) ?_ (Prod.ext hr rfl)).mpr ?_⟩
  · rw [fresh]
    exact nofun
  · decide

/-- The call for the second agent does not reach the chain. -/
def outage : Sent → Bool
  | .reportCall _ agent _ _ _ _ _ => agent = 0xA2
  | _ => false

/-- The call for the first agent was accepted, and its report is dropped. -/
theorem outage_disagrees : ∃ r w', run (reporting outage) rounds [(0xA1 : Address), 0xA2]
      [wipe] registered = (some r, w') ∧ Backed chain (reporting outage) ∧
    chain.scores registered = [] ∧ chain.scores w' = [⟨0xA1, 10, true, true⟩] ∧
    r.standing 0xA1 = ⟨0xA1, 0, 0, 0⟩ ∧ ¬ Agrees chain w' r 0xA1 := by
  have hstanding : (run (reporting outage) rounds [(0xA1 : Address), 0xA2] [wipe]
      registered).1.map (·.standing 0xA1) = some ⟨0xA1, 0, 0, 0⟩ := by decide
  have hscores : chain.scores (run (reporting outage) rounds [(0xA1 : Address), 0xA2] [wipe]
      registered).2 = [⟨0xA1, 10, true, true⟩] := by decide
  obtain ⟨r, hr, hs⟩ := Option.map_eq_some_iff.mp hstanding
  refine ⟨r, _, Prod.ext hr rfl, backed _, fresh, hscores, hs, fun h => ?_⟩
  have halpha := h.alphaBps
  rw [hs, hscores] at halpha
  exact absurd halpha (by decide)

end Agrees.Demo

end Arena
end Arcane
