import Arcane.Colosseum.Counters
import Arcane.Colosseum.Solvency
import Arcane.Lib.Doubles
import Arcane.Lib.GroupBy
import Arcane.Web.Chain

/-!
# The arena standings

`useArenaStandings` of `web/apps/web/src/lib/colosseum.ts`: the score of each agent as the sum of
its `CallReported` events in the blocks that the app reads, and its injections from `resilienceOf`.

* `report`: the event of a call.
* `standings_eq`: the standings, agent by agent, in the order of the first report.
* `standings_exact`: what they say of the Colosseum that the calls have run.
-/

namespace Arcane
namespace Web

open Windows Text Evm Colosseum

/-- A `CallReported` event as viem decodes it, without the arguments that are not read. -/
structure RawCallReported where
  agent : Option Str
  rBps : Option ℤ

structure Standing (F : Type) where
  address : Str
  alphaBps : F
  ingested : F
  survived : F
  resilience : F
  deriving DecidableEq

section Hook

variable {F : Type} (N : Doubles F) (lower : Str → Str)

/-- The loop over the logs: `alpha` by the lower case of an address. -/
def addReport (alpha : Dict Str (Str × F)) (l : RawCallReported) : Dict Str (Str × F) :=
  match l.agent with
  | none | some [] => alpha
  | some (c :: agent) =>
    let key := lower (c :: agent)
    let rec_ := (alpha.get? key).getD (c :: agent, N.ofInt 0)
    alpha.set key (rec_.1, N.add rec_.2 (N.ofInt (l.rBps.getD 0)))

def alphaOf (logs : List RawCallReported) : Dict Str (Str × F) := logs.foldl (addReport N lower) ∅

/-- What is read for one agent; `resilienceOf` answers the contract's two counters. -/
def standingOf (resilienceOf : Str → ℕ × ℕ) (e : Str × F) : Standing F :=
  let ing := (resilienceOf e.1).1
  let surv := (resilienceOf e.1).2
  { address := e.1
    alphaBps := e.2
    ingested := N.ofInt ing
    survived := N.ofInt surv
    resilience := if ing = 0 then N.ofInt 0 else N.div (N.ofInt surv) (N.ofInt ing) }

/-- The query of the hook. -/
def useArenaStandings (resilienceOf : Str → ℕ × ℕ)
    (getContractEvents : Window → Option (List RawCallReported)) (ranges : List Window) :
    List (Standing F) :=
  (alphaOf N lower (scanEvents getContractEvents ranges)).values.map (standingOf N resilienceOf)

end Hook

/-! ## The reports of a run -/

/-- The report that a call makes. -/
def report (st : Trace.Step State Event) : Option Score := st.ev.call.score

section

variable {F : Type} (N : Doubles F) {U : Unicode} (S : Checksum U)

/-- A report as the node answers it. -/
def rawReport (x : Score) : RawCallReported := ⟨some (S.text x.agent), some x.rBps⟩

/-- The scores of an agent in basis points, in their order. -/
def scoresOf (agent : Address) (xs : List Score) : List ℤ :=
  (xs.filter fun x => x.agent = agent).map (·.rBps)

theorem sum_scoresOf (agent : Address) (xs : List Score) :
    (scoresOf agent xs).sum = (tally agent xs).1 := by
  induction xs with
  | nil => rfl
  | cons x xs ih =>
    rw [tally_cons, Prod.fst_add, ← ih, scoresOf, Score.tally]
    by_cases hx : x.agent = agent
    · simp [hx, scoresOf]
    · simp [hx, scoresOf]

/-- The agents that were reported, each where it is first. -/
def reported (xs : List Score) : List Address := Dict.firstKeys Score.agent xs

/-- The loop groups the reports by agent. -/
theorem alphaOf_eq (xs : List Score) : alphaOf N U.lower (xs.map (rawReport S)) =
    Dict.group (fun x => addressKey x.agent) (fun x => (S.text x.agent, N.ofInt 0))
      (fun r x => (r.1, N.add r.2 (N.ofInt x.rBps))) xs := by
  have hstep : (fun d x => addReport N U.lower d (rawReport S x)) =
      Dict.absorb (fun x => addressKey x.agent) (fun x => (S.text x.agent, N.ofInt 0))
        (fun r x => (r.1, N.add r.2 (N.ofInt x.rBps))) := by
    funext d x
    obtain ⟨c, text, htext⟩ := List.exists_cons_of_ne_nil (S.text_ne_nil x.agent)
    have hkey := S.lower_text x.agent
    rw [htext] at hkey
    simp only [addReport, rawReport, htext, hkey, Option.getD_some, Dict.absorb]
  rw [alphaOf, List.foldl_map, hstep]
  rfl

theorem foldl_report (text : Str) (acc : F) (xs : List Score) :
    xs.foldl (fun r x => (r.1, N.add r.2 (N.ofInt x.rBps))) (text, acc) =
      (text, N.sum acc (xs.map (·.rBps))) := by
  induction xs generalizing acc with
  | nil => rfl
  | cons x xs ih => exact ih _

theorem values_alphaOf (xs : List Score) : (alphaOf N U.lower (xs.map (rawReport S))).values =
    (reported xs).map fun a => (S.text a, N.sum (N.ofInt 0) (scoresOf a xs)) := by
  rw [alphaOf_eq]
  have hkeys := Dict.keys_group (fun x : Score => addressKey x.agent)
    (fun x => (S.text x.agent, N.ofInt 0)) (fun r x => (r.1, N.add r.2 (N.ofInt x.rBps))) xs
  rw [Dict.firstKeys_comp Score.agent addressKey_injective] at hkeys
  refine Dict.values_eq hkeys fun a ha => ?_
  obtain ⟨x, hx, rfl⟩ := (Dict.mem_firstKeys Score.agent).mp ha
  have hsame : (xs.filter fun y => addressKey y.agent = addressKey x.agent) =
      xs.filter fun y => y.agent = x.agent := by
    exact List.filter_congr fun y _ => decide_eq_decide.mpr addressKey_injective.eq_iff
  rw [Dict.get?_group, hsame]
  cases hfilter : xs.filter fun y => y.agent = x.agent with
  | nil =>
    have hmem : x ∈ xs.filter fun y => y.agent = x.agent := List.mem_filter.mpr ⟨hx, by simp⟩
    rw [hfilter] at hmem
    cases hmem
  | cons y ys =>
    have hy : y ∈ xs.filter fun y => y.agent = x.agent := hfilter ▸ List.mem_cons_self
    have hagent : y.agent = x.agent := of_decide_eq_true (List.mem_filter.mp hy).2
    rw [List.head?_cons, Option.map_some, foldl_report, hagent, scoresOf, hfilter]

variable {C : Config} {s₀ s : State} {blocks : List (ℤ × Trace.Step State Event)}
  {tr : Address → List (Trace.Step State Event)} {later : Address → State} {fails : Window → Bool}
  {head : ℤ} {fuel : ℕ} {ranges : List Window}

/-- The standing of an agent with the reports `xs` that were seen, and its sums over all reports. -/
def standing (xs : List Score) (total : Address → Tally) (a : Address) : Standing F :=
  standingOf N (fun _ => (total a).2) (S.text a, N.sum (N.ofInt 0) (scoresOf a xs))

/-- What the hook shows of the runs of a Colosseum, when the counters of each agent are read in a
state that is as late or later than the last block. -/
structure StandingsExact (standings : List (Standing F)) (seen : List Score)
    (total : Address → Tally) : Prop where
  eq : standings = (reported seen).map (standing N S seen total)
  /-- Every agent with a report that is seen stands there once. -/
  mem : ∀ a, a ∈ reported seen ↔ ∃ x ∈ seen, x.agent = a
  nodup : (standings.map (·.address)).Nodup
  /-- The score is the sum in the contract's basis points while doubles are exact. -/
  alpha : ∀ a, (∀ x ∈ scoresOf a seen, |x| ≤ 2 ^ 53) →
    (∀ p, p <+: scoresOf a seen → |p.sum| ≤ 2 ^ 53) →
    (standing N S seen total a).alphaBps = N.ofInt (tally a seen).1

variable (fails) in
/-- The standings are those of the reports in the blocks whose windows were answered, and all
reports are seen when no window fails and no block is older than the lookback. -/
theorem standings_exact (h₀ : Deployed C s₀) (hrun : Run C s₀ (blocks.map (·.2)) s)
    (hlater : ∀ a, Run C s (tr a) (later a)) (hsorted : blocks.Pairwise fun b c => b.1 ≤ c.1)
    (hranges : standingsRanges fuel head = some ranges) (resilienceOf : Str → ℕ × ℕ)
    (hres : ∀ a, resilienceOf (S.text a) = (later a).counters a) :
    StandingsExact N S
      (useArenaStandings N U.lower resilienceOf (getEvents report (rawReport S) fails blocks)
        ranges)
      (seen report fails ranges blocks)
      (fun a => tally a (accepted (blocks.map (·.2) ++ tr a))) ∧
    ((∀ w ∈ ranges, fails w = false) →
      (∀ b ∈ blocks, head - standingsLookback ≤ b.1 ∧ 0 ≤ b.1 ∧ b.1 ≤ head) →
      seen report fails ranges blocks = accepted (blocks.map (·.2))) := by
  have hcounters (a : Address) : resilienceOf (S.text a) =
      (tally a (accepted (blocks.map (·.2) ++ tr a))).2 := by
    rw [hres, counters_eq_tally h₀ (hrun.append (hlater a))]
  have heq : useArenaStandings N U.lower resilienceOf
      (getEvents report (rawReport S) fails blocks) ranges =
      (reported (seen report fails ranges blocks)).map
        (standing N S (seen report fails ranges blocks)
          fun a => tally a (accepted (blocks.map (·.2) ++ tr a))) := by
    rw [useArenaStandings, scanEvents_getEvents (by decide) (by decide) hsorted hranges,
      values_alphaOf, List.map_map]
    refine List.map_congr_left fun a _ => ?_
    simp only [Function.comp_apply, standingOf, standing, hcounters]
  refine ⟨⟨heq, fun a => Dict.mem_firstKeys _, ?_, fun a hterms hsums => ?_⟩, fun hfails hin => ?_⟩
  · rw [heq, List.map_map]
    exact (Dict.nodup_firstKeys _ _).map S.text_injective
  · have hsum : N.sum (N.ofInt 0) (scoresOf a (seen report fails ranges blocks)) =
        N.ofInt (0 + (scoresOf a (seen report fails ranges blocks)).sum) :=
      N.sum_exact (by decide) hterms (by simpa using hsums)
    rw [zero_add, sum_scoresOf] at hsum
    exact hsum
  · rw [standingsRanges, scanStart_eq] at hranges
    refine seen_eq (by decide) hranges hfails fun b hb => ?_
    have := hin b hb
    omega

end

namespace Standings.Demo

open Colosseum.Demo

/-- The recorder reports three calls of a duel, two of them of the same agent. -/
def calls : List (Msg × Call) :=
  funding ++ [(.of 0xDA 1, .registerAgent 0xA1), (.of 0xDB 1, .registerAgent 0xA2),
    (.of 0xBEEF 2, .createDuel 0xA1 0xA2 10 10),
    (.of 0xBEEF 15, .reportCall 1 0xA1 0 50 true true false),
    (.of 0xBEEF 16, .reportCall 1 0xA2 0 (-20) false false false),
    (.of 0xBEEF 17, .reportCall 1 0xA1 0 30 true false false)]

/-- A further report. -/
def last : Msg × Call := (.of 0xBEEF 18, .reportCall 1 0xA2 1 10 true true false)

/-- The scores of the calls. -/
def scores : List Score :=
  [⟨0xA1, 50, true, true⟩, ⟨0xA2, -20, false, false⟩, ⟨0xA1, 30, true, false⟩]

/-- The state in which the counters of an agent are read. -/
def laterOf (s s' : State) (a : Address) : State := if a = 0xA2 then s' else s

/-- All calls but the last are in the block 5, which the node answers. The counters of the second
agent are read after the last. -/
theorem calls_shown : ∃ tr s tr' s', Run config start tr s ∧ Run config s tr' s' ∧
    accepted tr = scores ∧
    useArenaStandings .exact Unicode.ascii.lower
      (fun text =>
        let a := Checksum.addressOf Unicode.ascii.lower text
        (laterOf s s' a).counters a)
      (getEvents report (rawReport (.keccak .ascii)) (fun _ => false) (tr.map fun st => (5, st)))
      [(0, 5)] =
      [⟨lit "0x00000000000000000000000000000000000000A1", 80, 2, 1, 0⟩,
        ⟨lit "0x00000000000000000000000000000000000000A2", -20, 1, 1, 1⟩] := by
  have h : ((play config start calls).bind fun r => (play config r.2 [last]).map fun r' =>
      (accepted r.1, accepted r'.1)) = some (scores, [⟨0xA2, 10, true, true⟩]) := by
    decide +kernel
  obtain ⟨r, hr, hlast⟩ := Option.bind_eq_some_iff.mp h
  obtain ⟨r', hr', hv⟩ := Option.map_eq_some_iff.mp hlast
  obtain ⟨hscores, hmore⟩ := Prod.mk.inj hv
  have hblocks : (r.1.map fun st => ((5 : ℤ), st)).map (·.2) = r.1 := by
    rw [List.map_map]
    exact List.map_id _
  have hrun : Run config start ((r.1.map fun st => ((5 : ℤ), st)).map (·.2)) r.2 := by
    rw [hblocks]
    exact Run.of_play hr
  have hsorted : (r.1.map fun st => ((5 : ℤ), st)).Pairwise fun b c => b.1 ≤ c.1 := by
    rw [List.pairwise_map]
    exact List.pairwise_of_forall fun _ _ => le_refl _
  have hranges : standingsRanges 1 5 = some [(0, 5)] := rfl
  have hlater (a : Address) :
      Run config r.2 (if a = 0xA2 then r'.1 else []) (laterOf r.2 r'.2 a) := by
    unfold laterOf
    split
    · exact Run.of_play hr'
    · exact .nil
  obtain ⟨hexact, hseen⟩ := standings_exact .exact (.keccak .ascii) (fun _ => false) deployed hrun
    hlater hsorted hranges
    (fun text =>
      let a := Checksum.addressOf Unicode.ascii.lower text
      (laterOf r.2 r'.2 a).counters a)
    fun a => by simp only [Checksum.addressOf_text]
  have hseen := hseen (fun _ _ => rfl) (by
    intro b hb
    have hblock : (5 : ℤ) - standingsLookback ≤ 5 ∧ (0 : ℤ) ≤ 5 ∧ (5 : ℤ) ≤ 5 := by decide
    obtain ⟨st, -, rfl⟩ := List.mem_map.mp hb
    exact hblock)
  rw [hblocks] at hseen hexact
  refine ⟨r.1, r.2, r'.1, r'.2, Run.of_play hr, Run.of_play hr', hscores, ?_⟩
  have heq := hexact.eq
  rw [hseen, hscores] at heq
  rw [heq]
  have htotal (a : Address) : accepted (r.1 ++ if a = 0xA2 then r'.1 else []) =
      scores ++ if a = 0xA2 then [⟨0xA2, 10, true, true⟩] else [] := by
    split <;> simp [accepted_append, hscores, hmore]
  simp only [htotal]
  decide +kernel

end Standings.Demo

end Web
end Arcane
