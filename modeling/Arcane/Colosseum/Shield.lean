import Arcane.Arena.Arena
import Arcane.Colosseum.Solvency
import Mathlib.Data.Rat.Floor
import Mathlib.Data.List.Pairwise

/-!
# The shield winner by exact ratios

The contract compares ratios in whole basis points, the arena's `shield_ranking` the ratios
themselves.

* `resilienceRatio_ok`: the contract's ratio is the floor of the exact one.
* `sublist_shieldRanking`: a standing comes before every other of a lower resilience.
* `byExactRatio_iff`: the contract names the winner by exact ratios, unless two eligible agents have
  ratios in one basis point and that of B is the higher.
-/

namespace Arcane
namespace Colosseum

open Evm

/-- The agent has an ingested injection, and a score that is high enough. -/
def State.Eligible (s : State) (agent : Address) (score : ℤ) : Prop :=
  0 < s.injectionsIngested agent ∧ s.shieldMinScore ≤ score

instance (s : State) (agent : Address) (score : ℤ) : Decidable (s.Eligible agent score) :=
  inferInstanceAs (Decidable (_ ∧ _))

/-- The exact ratio of survived to ingested injections. -/
def State.ratio (s : State) (agent : Address) : ℚ :=
  s.survivedInjections agent / s.injectionsIngested agent

/-- The winner by exact ratios: A, if it is eligible and B is not or has no higher ratio; B, if it
is eligible and A is not or has a lower ratio; nobody, if neither is. -/
def State.exactShieldWinner (s : State) (d : Duel) : Address :=
  if s.Eligible d.agentA d.scoreA ∧
      (¬ s.Eligible d.agentB d.scoreB ∨ s.ratio d.agentB ≤ s.ratio d.agentA) then d.agentA
  else if s.Eligible d.agentB d.scoreB ∧
      (¬ s.Eligible d.agentA d.scoreA ∨ s.ratio d.agentA < s.ratio d.agentB) then d.agentB
  else 0

/-- The standing has the counters of the agent. -/
structure State.Shows (s : State) (agent : Address) (x : Arena.AgentStanding) : Prop where
  address : x.address = agent
  ingested : x.ingested = s.injectionsIngested agent
  survived : x.survived = s.survivedInjections agent

/-- The address is the winner by exact ratios; of two eligible agents with different ratios, it is
the one that comes first in every shield ranking with standings of both. -/
structure State.ByExactRatio (s : State) (d : Duel) (shieldWinner : Address) : Prop where
  exact : shieldWinner = s.exactShieldWinner d
  ranking : s.Eligible d.agentA d.scoreA → s.Eligible d.agentB d.scoreB →
    s.ratio d.agentA ≠ s.ratio d.agentB →
    ∀ (r : Arena.ArenaResult) (a b : Arena.AgentStanding), a ∈ r.standings → b ∈ r.standings →
      s.Shows d.agentA a → s.Shows d.agentB b →
      shieldWinner = d.agentA ∧ [a, b].Sublist r.shieldRanking ∨
        shieldWinner = d.agentB ∧ [b, a].Sublist r.shieldRanking

/-- Both agents are eligible, the ratio of B is the higher one, and both are in one basis point. -/
def State.NearTie (s : State) (d : Duel) : Prop :=
  s.Eligible d.agentA d.scoreA ∧ s.Eligible d.agentB d.scoreB ∧
    s.ratio d.agentA < s.ratio d.agentB ∧
    ⌊s.ratio d.agentA * 10000⌋ = ⌊s.ratio d.agentB * 10000⌋

section Ranking

variable {r : Arena.ArenaResult} {x y : Arena.AgentStanding}

theorem pairwise_shieldRanking (r : Arena.ArenaResult) :
    r.shieldRanking.Pairwise fun x y => y.resilience ≤ x.resilience := by
  have hsorted := @List.pairwise_mergeSort Arena.AgentStanding
    (fun x y => y.resilience < x.resilience ∨ y.resilience = x.resilience ∧ y.alphaBps ≤ x.alphaBps)
    (fun x y z hxy hyz => by
      simp only [decide_eq_true_eq] at hxy hyz ⊢
      grind)
    (fun x y => by
      simp only [Bool.or_eq_true, decide_eq_true_eq]
      grind)
    r.standings
  refine hsorted.imp fun h => ?_
  simp only [decide_eq_true_eq] at h
  exact h.elim le_of_lt fun ⟨heq, _⟩ => heq.le

/-- A standing comes before one of a lower resilience. -/
theorem sublist_shieldRanking (hx : x ∈ r.standings) (hy : y ∈ r.standings)
    (h : y.resilience < x.resilience) : [x, y].Sublist r.shieldRanking := by
  have hperm : r.shieldRanking.Perm r.standings := List.mergeSort_perm _ _
  have hsorted := pairwise_shieldRanking r
  obtain ⟨before, after, hsplit⟩ := List.append_of_mem (hperm.mem_iff.mpr hx)
  have hmem := hperm.mem_iff.mpr hy
  rw [hsplit] at hsorted hmem ⊢
  obtain hbefore | hafter := List.mem_append.mp hmem
  · have hle := (List.pairwise_append.mp hsorted).2.2 y hbefore x List.mem_cons_self
    exact absurd hle (not_le_of_gt h)
  · obtain rfl | hafter := List.mem_cons.mp hafter
    · exact absurd h (lt_irrefl _)
    · exact ((List.singleton_sublist.mpr hafter).cons_cons x).trans (List.sublist_append_right ..)

end Ranking

section Winner

variable {C : Config} {s₀ s s' : State} {tr : List (Trace.Step State Event)} {e : Event} {d : Duel}
  {agent w : Address} {id : ℕ}

theorem resilience_of_shows {x : Arena.AgentStanding} (h : s.Shows agent x) :
    x.resilience = s.ratio agent := by
  rw [Arena.AgentStanding.resilience, State.ratio, ← h.ingested, ← h.survived]
  split
  · next hzero => rw [hzero, Nat.cast_zero, div_zero]
  · rfl

/-- The contract's ratio is the exact one in basis points, rounded down. -/
theorem resilienceRatio_ok {n : ℕ} (hing : 0 < s.injectionsIngested agent)
    (h : s.resilienceRatio agent = .ok n) : (n : ℤ) = ⌊s.ratio agent * 10000⌋ := by
  simp only [State.resilienceRatio, if_neg hing.ne', bind_ok, U256.mul_ok, pure_ok] at h
  obtain ⟨-, ⟨-, rfl⟩, rfl⟩ := h
  have hscaled : s.ratio agent * 10000 =
      ((s.survivedInjections agent * 10000 : ℕ) : ℚ) / (s.injectionsIngested agent : ℕ) := by
    rw [State.ratio]
    push_cast
    ring
  rw [hscaled, Rat.floor_natCast_div_natCast, Int.natCast_ediv]

theorem ironShieldWinner_eq : s.ironShieldWinner d =
    if s.Eligible d.agentA d.scoreA ∧ s.Eligible d.agentB d.scoreB then do
      let ratioA ← s.resilienceRatio d.agentA
      let ratioB ← s.resilienceRatio d.agentB
      return if ratioB ≤ ratioA then d.agentA else d.agentB
    else if s.Eligible d.agentA d.scoreA then return d.agentA
    else if s.Eligible d.agentB d.scoreB then return d.agentB
    else return 0 := rfl

/-- The winner that the contract names, by the floors of the ratios. -/
theorem ironShieldWinner_ok (h : s.ironShieldWinner d = .ok w) :
    w = if s.Eligible d.agentA d.scoreA ∧ s.Eligible d.agentB d.scoreB then
        if ⌊s.ratio d.agentB * 10000⌋ ≤ ⌊s.ratio d.agentA * 10000⌋ then d.agentA else d.agentB
      else if s.Eligible d.agentA d.scoreA then d.agentA
      else if s.Eligible d.agentB d.scoreB then d.agentB
      else 0 := by
  rw [ironShieldWinner_eq] at h
  by_cases hboth : s.Eligible d.agentA d.scoreA ∧ s.Eligible d.agentB d.scoreB
  · simp only [if_pos hboth, bind_ok, pure_ok] at h
    obtain ⟨ratioA, hA, ratioB, hB, rfl⟩ := h
    rw [if_pos hboth, ← resilienceRatio_ok hboth.1.1 hA, ← resilienceRatio_ok hboth.2.1 hB]
    simp only [Nat.cast_le]
  · rw [if_neg hboth] at h ⊢
    split_ifs at h ⊢ <;> exact (pure_ok.mp h).symm

/-- Rounding down keeps the order of the ratios but for a near tie. -/
theorem eq_exactShieldWinner_iff (hne : d.agentA ≠ d.agentB) (h : s.ironShieldWinner d = .ok w) :
    w = s.exactShieldWinner d ↔ ¬ s.NearTie d := by
  have hmono (hle : s.ratio d.agentB ≤ s.ratio d.agentA) :
      ⌊s.ratio d.agentB * 10000⌋ ≤ ⌊s.ratio d.agentA * 10000⌋ :=
    Int.floor_mono (mul_le_mul_of_nonneg_right hle (by norm_num))
  have hmono' (hlt : s.ratio d.agentA < s.ratio d.agentB) :
      ⌊s.ratio d.agentA * 10000⌋ ≤ ⌊s.ratio d.agentB * 10000⌋ :=
    Int.floor_mono (mul_le_mul_of_nonneg_right hlt.le (by norm_num))
  rw [ironShieldWinner_ok h, State.exactShieldWinner, State.NearTie]
  by_cases hA : s.Eligible d.agentA d.scoreA
  · by_cases hB : s.Eligible d.agentB d.scoreB
    · by_cases hle : s.ratio d.agentB ≤ s.ratio d.agentA
      · simp [hA, hB, hle, hmono hle, not_lt_of_ge hle]
      · have hlt := lt_of_not_ge hle
        by_cases hfloor : ⌊s.ratio d.agentB * 10000⌋ ≤ ⌊s.ratio d.agentA * 10000⌋
        · simp [hA, hB, hlt, hle, hne, le_antisymm (hmono' hlt) hfloor]
        · have hfloors : ⌊s.ratio d.agentA * 10000⌋ ≠ ⌊s.ratio d.agentB * 10000⌋ :=
            fun heq => hfloor heq.ge
          simp [hA, hB, hlt, hle, hfloor, hfloors]
    · simp [hA, hB]
  · by_cases hB : s.Eligible d.agentB d.scoreB <;> simp [hA, hB]

/-- The winner by exact ratios comes first in every ranking. -/
theorem byExactRatio_of_eq (h : w = s.exactShieldWinner d) : s.ByExactRatio d w where
  exact := h
  ranking hA hB hne r a b ha hb hshowsA hshowsB := by
    obtain hlt | hlt := lt_or_gt_of_ne hne
    · right
      refine ⟨?_, sublist_shieldRanking hb ha ?_⟩
      · simp [h, State.exactShieldWinner, hA, hB, hlt, not_le_of_gt hlt]
      · rwa [resilience_of_shows hshowsA, resilience_of_shows hshowsB]
    · left
      refine ⟨?_, sublist_shieldRanking ha hb ?_⟩
      · simp [h, State.exactShieldWinner, hA, hB, hlt.le]
      · rwa [resilience_of_shows hshowsA, resilience_of_shows hshowsB]

/-- The contract names the winner by exact ratios if and only if the agents are not in a near
tie. -/
theorem byExactRatio_iff (h₀ : Deployed C s₀) (hrun : Run C s₀ tr s) (hst : Step C s e s')
    (hcall : e.call = .resolve id) :
    s.ByExactRatio (s.duels id) (s'.duels id).shieldWinner ↔ ¬ s.NearTie (s.duels id) := by
  have hwf := Run.wellFormed h₀ hrun
  obtain ⟨w, hlive, hw, hs'⟩ : ∃ w, (s.duels id).status = .live ∧
      s.ironShieldWinner (s.duels id) = .ok w ∧ (s'.duels id).shieldWinner = w := by
    cases hst.effect hwf
    case resolve id' usdc w hcall' hlive _ hw _ =>
      obtain rfl : id = id' := Call.resolve.inj (hcall.symm.trans hcall')
      exact ⟨w, hlive, hw, by simp only [Function.update_self]⟩
    all_goals simp_all [Call.setter]
  have hne := hwf.sides id (by rw [hlive]; decide)
  rw [hs', ← eq_exactShieldWinner_iff hne hw]
  exact ⟨fun hexact => hexact.exact, byExactRatio_of_eq⟩

end Winner

namespace Demo

/-- The recorder reports `n` calls of the agent, each under an injection. -/
def ingest (n : ℕ) (agent : Address) (survived : Bool) : List (Msg × Call) :=
  List.replicate n (.of 0xBEEF 15, .reportCall 1 agent 0 0 true survived false)

/-- A duel in which A survives `a` injections and falls for one, and B survives `b` and falls for
one. -/
def trading (a b : ℕ) : List (Msg × Call) :=
  funding ++ [(.of 0xDA 1, .registerAgent 0xA1),
    (.of 0xDB 1, .registerAgent 0xA2),
    (.of 0xBEEF 2, .createDuel 0xA1 0xA2 10 10)] ++
    ingest a 0xA1 true ++ ingest 1 0xA1 false ++ ingest b 0xA2 true ++ ingest 1 0xA2 false

/-- What decides the shield winner of the duel, and the winner that it is resolved with. -/
structure Outcome where
  agentA : Address
  agentB : Address
  scoreA : ℤ
  scoreB : ℤ
  shieldMinScore : ℤ
  ingestedA : ℕ
  survivedA : ℕ
  ingestedB : ℕ
  survivedB : ℕ
  shieldWinner : Option Address
  deriving DecidableEq

def outcome (s : State) : Outcome where
  agentA := (s.duels 1).agentA
  agentB := (s.duels 1).agentB
  scoreA := (s.duels 1).scoreA
  scoreB := (s.duels 1).scoreB
  shieldMinScore := s.shieldMinScore
  ingestedA := s.injectionsIngested 0xA1
  survivedA := s.survivedInjections 0xA1
  ingestedB := s.injectionsIngested 0xA2
  survivedB := s.survivedInjections 0xA2
  shieldWinner := (accept config s (.of 0xE1 30, .resolve 1)).map fun x =>
    (x.2.duels 1).shieldWinner

/-- The duel of `trading` is resolved for A. -/
theorem resolved {a b : ℕ} (h : (play config start (trading a b)).map (fun r => outcome r.2) =
      some ⟨0xA1, 0xA2, 0, 0, 0, a + 1, a, b + 1, b, some 0xA1⟩) :
    ∃ tr s e s', Run config start tr s ∧ Step config s e s' ∧ e.call = .resolve 1 ∧
      (s'.duels 1).shieldWinner = 0xA1 ∧
      outcome s = ⟨0xA1, 0xA2, 0, 0, 0, a + 1, a, b + 1, b, some 0xA1⟩ := by
  obtain ⟨r, hr, hs⟩ := Option.map_eq_some_iff.mp h
  obtain ⟨⟨e, s'⟩, haccept, hw⟩ := Option.map_eq_some_iff.mp (congrArg Outcome.shieldWinner hs)
  exact ⟨r.1, r.2, e, s', Run.of_play hr, accept_step haccept, accept_call haccept, hw, hs⟩

/-- The ratios of the agents, from the counters. -/
theorem eligible_of_outcome {s : State} {a b : ℕ}
    (h : outcome s = ⟨0xA1, 0xA2, 0, 0, 0, a + 1, a, b + 1, b, some 0xA1⟩) :
    s.Eligible (s.duels 1).agentA (s.duels 1).scoreA ∧
      s.Eligible (s.duels 1).agentB (s.duels 1).scoreB ∧
      s.ratio (s.duels 1).agentA = a / (a + 1) ∧ s.ratio (s.duels 1).agentB = b / (b + 1) := by
  simp only [outcome, Outcome.mk.injEq] at h
  obtain ⟨hA, hB, hscoreA, hscoreB, hmin, hingA, hsurvA, hingB, hsurvB, -⟩ := h
  simp [State.Eligible, State.ratio, hA, hB, hscoreA, hscoreB, hmin, hingA, hsurvA, hingB, hsurvB]

/-- A ratio of 2 in 3 is ahead of one of 1 in 2. -/
theorem ahead_named : ∃ tr s e s', Run config start tr s ∧ Step config s e s' ∧
    e.call = .resolve 1 ∧ s.ByExactRatio (s.duels 1) (s'.duels 1).shieldWinner := by
  obtain ⟨tr, s, e, s', hrun, hst, hcall, -, hs⟩ := resolved (a := 2) (b := 1) (by decide +kernel)
  obtain ⟨-, -, hA, hB⟩ := eligible_of_outcome hs
  refine ⟨tr, s, e, s', hrun, hst, hcall, (byExactRatio_iff deployed hrun hst hcall).mpr ?_⟩
  rintro ⟨-, -, hlt, -⟩
  rw [hA, hB] at hlt
  norm_num at hlt

/-- A ratio of 100 in 101 is ahead of one of 99 in 100, by less than a basis point: the contract
names the other agent. -/
theorem near_tie_misnamed : ∃ tr s e s', Run config start tr s ∧ Step config s e s' ∧
    e.call = .resolve 1 ∧ s.injectionsIngested 0xA1 = 100 ∧ s.survivedInjections 0xA1 = 99 ∧
    s.injectionsIngested 0xA2 = 101 ∧ s.survivedInjections 0xA2 = 100 ∧
    s.exactShieldWinner (s.duels 1) = 0xA2 ∧ (s'.duels 1).shieldWinner = 0xA1 ∧
    ¬ s.ByExactRatio (s.duels 1) (s'.duels 1).shieldWinner := by
  obtain ⟨tr, s, e, s', hrun, hst, hcall, hw, hs⟩ :=
    resolved (a := 99) (b := 100) (by decide +kernel)
  obtain ⟨heligibleA, heligibleB, hA, hB⟩ := eligible_of_outcome hs
  have hexact : s.exactShieldWinner (s.duels 1) = 0xA2 := by
    have hlt : s.ratio (s.duels 1).agentA < s.ratio (s.duels 1).agentB := by
      rw [hA, hB]
      norm_num
    rw [State.exactShieldWinner, if_neg (by simp [heligibleB, hlt]),
      if_pos ⟨heligibleB, .inr hlt⟩]
    exact congrArg Outcome.agentB hs
  refine ⟨tr, s, e, s', hrun, hst, hcall, congrArg Outcome.ingestedA hs,
    congrArg Outcome.survivedA hs, congrArg Outcome.ingestedB hs, congrArg Outcome.survivedB hs,
    hexact, hw, fun h => ?_⟩
  have hne := h.exact
  rw [hw, hexact] at hne
  exact absurd hne (by decide)

end Demo

end Colosseum
end Arcane
