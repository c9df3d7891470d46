import Arcane.Lib.GroupBy
import Arcane.Registry.Reputation

/-!
# Wins and losses

`useReputation` and `reputationFor` of `web/apps/web/src/lib/arena.ts`, beside the counts of the
registry service.

* `reputationFor_eq`: what the app shows of an operator, from the events that its scan sees.
* `reputation_exact`: what both of them say of the oracle that the calls have run.
-/

namespace Arcane
namespace Web

open Windows Text Evm PerformanceOracle

/-- An `AdviceResolved` event as viem decodes it, without the arguments that are not read. -/
structure RawResolveLog where
  agent : Option Str
  slashed : Option Bool

structure ReputationRecord where
  operator : Str
  wins : ℕ
  losses : ℕ
  deriving DecidableEq

/-- `lookback` of `useReputation`. -/
def reputationLookback : ℤ := 100000

section Hook

variable (lower : Str → Str)

def ReputationRecord.add (rec_ : ReputationRecord) (slashed : Option Bool) : ReputationRecord :=
  if slashed = some true then { rec_ with losses := rec_.losses + 1 }
  else { rec_ with wins := rec_.wins + 1 }

/-- The loop over the logs: records by the lower case of an address. -/
def addResolve (map : Dict Str ReputationRecord) (log : RawResolveLog) :
    Dict Str ReputationRecord :=
  match log.agent with
  | none | some [] => map
  | some (c :: agent) =>
    let key := lower (c :: agent)
    map.set key (((map.get? key).getD ⟨c :: agent, 0, 0⟩).add log.slashed)

/-- The query of the hook. -/
def useReputation (getContractEvents : Window → Option (List RawResolveLog))
    (ranges : List Window) : Dict Str ReputationRecord :=
  (scanEvents getContractEvents ranges).foldl (addResolve lower) ∅

def reputationFor (map : Option (Dict Str ReputationRecord)) (operator : Str) : ReputationRecord :=
  (map.bind fun m => m.get? (lower operator)).getD ⟨operator, 0, 0⟩

end Hook

section

variable {U : Unicode} (S : Checksum U) {l : List AdviceResolved} {a : Address}

/-- A resolution as the node answers it. -/
def rawResolved (x : AdviceResolved) : RawResolveLog := ⟨some (S.text x.agent), some x.slashed⟩

theorem useReputation_eq (l : List AdviceResolved) :
    (l.map (rawResolved S)).foldl (addResolve U.lower) ∅ =
      Dict.group (fun x => addressKey x.agent) (fun x => ⟨S.text x.agent, 0, 0⟩)
        (fun r x => r.add (some x.slashed)) l := by
  have hstep : (fun d x => addResolve U.lower d (rawResolved S x)) =
      Dict.absorb (fun x => addressKey x.agent) (fun x => ⟨S.text x.agent, 0, 0⟩)
        (fun r x => r.add (some x.slashed)) := by
    funext d x
    obtain ⟨c, text, htext⟩ := List.exists_cons_of_ne_nil (S.text_ne_nil x.agent)
    have hkey := S.lower_text x.agent
    rw [htext] at hkey
    simp only [addResolve, rawResolved, htext, hkey, Dict.absorb]
  rw [List.foldl_map, hstep]
  rfl

theorem foldl_add (hl : ∀ x ∈ l, x.agent = a) (rec_ : ReputationRecord) :
    l.foldl (fun r x => r.add (some x.slashed)) rec_ =
      ⟨rec_.operator, rec_.wins + wins a l, rec_.losses + losses a l⟩ := by
  induction l generalizing rec_ with
  | nil => rfl
  | cons x l ih =>
    have hx := hl x List.mem_cons_self
    rw [List.foldl_cons, ih fun y hy => hl y (List.mem_cons_of_mem _ hy)]
    cases hs : x.slashed with
    | true =>
      simp only [ReputationRecord.add, wins, losses, resolutions, List.countP_cons, hx, hs, if_true,
        ReputationRecord.mk.injEq]
      simp
      omega
    | false =>
      simp only [ReputationRecord.add, wins, losses, resolutions, List.countP_cons, hx, hs,
        ReputationRecord.mk.injEq]
      simp
      omega

/-- The app looks an operator up by its address, however it is written. -/
theorem reputationFor_eq {operator : Str} (hop : U.lower operator = addressKey a) :
    (reputationFor U.lower (some ((l.map (rawResolved S)).foldl (addResolve U.lower) ∅))
        operator).wins = wins a l ∧
      (reputationFor U.lower (some ((l.map (rawResolved S)).foldl (addResolve U.lower) ∅))
        operator).losses = losses a l := by
  have hsame : (l.filter fun x => addressKey x.agent = addressKey a) =
      l.filter fun x => x.agent = a := by
    exact List.filter_congr fun x _ => decide_eq_decide.mpr addressKey_injective.eq_iff
  have hwins : wins a (l.filter fun x => x.agent = a) = wins a l :=
    Registry.resolutions_filter false
  have hlosses : losses a (l.filter fun x => x.agent = a) = losses a l :=
    Registry.resolutions_filter true
  rw [reputationFor, Option.bind_some, hop, useReputation_eq, Dict.get?_group, hsame]
  cases hfilter : l.filter fun x => x.agent = a with
  | nil =>
    rw [hfilter] at hwins hlosses
    exact ⟨hwins, hlosses⟩
  | cons x xs =>
    rw [hfilter] at hwins hlosses
    have hagents : ∀ y ∈ x :: xs, y.agent = a := by
      intro y hy
      rw [← hfilter] at hy
      exact of_decide_eq_true (List.mem_filter.mp hy).2
    rw [List.head?_cons, Option.map_some, Option.getD_some, foldl_add hagents]
    exact ⟨(Nat.zero_add _).trans hwins, (Nat.zero_add _).trans hlosses⟩

/-- The wins and losses of an operator that the service and the app show, on a chain with the block
`head` whose blocks ran the oracle to the state `s`. -/
structure ReputationExact (O : Config) (tr : List (Trace.Step State Event)) (s : State) (head : ℤ)
    (seen : List AdviceResolved) (a : Address) (service app : ℕ × ℕ) : Prop where
  /-- Each recorded advice is a win, a loss or still open. -/
  balanced : wins a (events tr) + losses a (events tr) + (if (s.advice a).Open then 1 else 0) =
    recorded a tr
  /-- A loss is a slash that the vault carried out, and a win an approved release. -/
  settled : ∀ x ∈ events tr, ∃ st ∈ tr, ∃ priceUpdate, Resolution O st x.agent priceUpdate ∧
    (st.post.advice x.agent).slashed = x.slashed
  service : service =
    if head < rpcCap then (wins a (events tr), losses a (events tr)) else (0, 0)
  app : app = (wins a seen, losses a seen)

variable {O : Config} {s₀ s : State} {blocks : List (ℤ × Trace.Step State Event)}
  {fails : Window → Bool} {head : ℤ} {fuel : ℕ} {ranges : List Window}
  {abiDecode : Registry.ResolvedDecoder}

variable (fails) in
/-- Over any run of the oracle the app counts the resolutions in the blocks whose windows were
answered. The service counts all of them as long as one query may span the chain, and none from then
on. -/
theorem reputation_exact (h₀ : Deployed O s₀) (hrun : Run O s₀ (blocks.map (·.2)) s)
    (hsorted : blocks.Pairwise fun b c => b.1 ≤ c.1)
    (hin : ∀ b ∈ blocks, 0 ≤ b.1 ∧ b.1 ≤ head)
    (hranges : eventRanges fuel head reputationLookback = some ranges)
    (hR : Registry.ReadsResolved abiDecode) (addr refusal : Str) {oracle : Str}
    (horacle : oracle ≠ []) :
    (∀ a operator, U.lower operator = addressKey a →
      ReputationExact O (blocks.map (·.2)) s head (seen emitted fails ranges blocks) a
        (Registry.reputationFor U keccak256 abiDecode
          (Registry.oracleNode addr refusal (eventsIn emitted blocks) head) (some oracle)
          (addressKey a))
        (let r := reputationFor U.lower (some (useReputation U.lower
          (getEvents emitted (rawResolved S) fails blocks) ranges)) operator
        (r.wins, r.losses))) ∧
    ((∀ w ∈ ranges, fails w = false) → (∀ b ∈ blocks, head - reputationLookback ≤ b.1) →
      seen emitted fails ranges blocks = events (blocks.map (·.2))) := by
  have hevents : (eventsIn emitted blocks).map (·.2) = events (blocks.map (·.2)) :=
    map_eventsIn emitted blocks
  have hfits : ∀ e ∈ eventsIn emitted blocks, I256.Fits e.2.rBps := by
    intro e he
    obtain ⟨b, -, hb⟩ := List.mem_filterMap.mp he
    obtain ⟨x, hx, rfl⟩ := Option.map_eq_some_iff.mp hb
    exact fits_of_emitted hx
  have hinside : ∀ e ∈ eventsIn emitted blocks, 0 ≤ e.1 ∧ e.1 ≤ head := by
    intro e he
    obtain ⟨b, hb, hblock⟩ := block_of_mem_eventsIn he
    exact hblock ▸ hin b hb
  refine ⟨fun a operator hop => ⟨Run.balanced h₀ hrun, fun x hx =>
    Run.resolution_of_event h₀ hrun hx, ?_, ?_⟩, fun hfails hrecent => ?_⟩
  · rw [Registry.reputation_node U hR hfits hinside horacle refusal a, hevents]
  · have hscan : scanEvents (getEvents emitted (rawResolved S) fails blocks) ranges =
        (seen emitted fails ranges blocks).map (rawResolved S) :=
      scanEvents_getEvents (by decide) (by decide) hsorted hranges
    obtain ⟨hwins, hlosses⟩ := reputationFor_eq S
      (l := seen emitted fails ranges blocks) hop
    rw [useReputation, hscan]
    exact Prod.ext hwins hlosses
  · rw [eventRanges, scanStart_eq] at hranges
    refine seen_eq (by decide) hranges hfails fun b hb => ?_
    have := hin b hb
    have := hrecent b hb
    omega

end

namespace Reputation.Demo

open PerformanceOracle.Demo

/-- All calls are in the block 5: the failed advice is a loss, and the one that passed a win. -/
theorem verdicts_counted : ∃ tr s, Run config start tr s ∧ recorded 0xA1 tr = 2 ∧
    Registry.reputationFor .ascii keccak256 Registry.decodeResolved
      (Registry.oracleNode [] [] (eventsIn emitted (tr.map fun st => ((5 : ℤ), st))) 5)
      (some (addressKey 0x0C)) (addressKey 0xA1) = (1, 1) ∧
    (let r := reputationFor Unicode.ascii.lower (some (useReputation Unicode.ascii.lower
      (getEvents emitted (rawResolved (.keccak .ascii)) (fun _ => false)
        (tr.map fun st => ((5 : ℤ), st))) [(0, 5)])) (addressKey 0xA1)
    (r.wins, r.losses)) = (1, 1) := by
  have h : (play config start verdicts).map (fun r => (recorded 0xA1 r.1, wins 0xA1 (events r.1),
      losses 0xA1 (events r.1))) = some (2, 1, 1) := by decide +kernel
  obtain ⟨r, hr, hv⟩ := Option.map_eq_some_iff.mp h
  simp only [Prod.mk.injEq] at hv
  obtain ⟨hrecorded, hwins, hlosses⟩ := hv
  have hblocks : (r.1.map fun st => ((5 : ℤ), st)).map (·.2) = r.1 := by
    rw [List.map_map]
    exact List.map_id _
  have hrun : Run config start ((r.1.map fun st => ((5 : ℤ), st)).map (·.2)) r.2 := by
    rw [hblocks]
    exact Evm.Run.of_play hr
  have hsorted : (r.1.map fun st => ((5 : ℤ), st)).Pairwise fun b c => b.1 ≤ c.1 := by
    rw [List.pairwise_map]
    exact List.pairwise_of_forall fun _ _ => le_refl _
  have hin : ∀ b ∈ r.1.map fun st => ((5 : ℤ), st), b.1 = 5 := by
    intro b hb
    obtain ⟨st, -, rfl⟩ := List.mem_map.mp hb
    rfl
  have hranges : eventRanges 1 5 reputationLookback = some [(0, 5)] := rfl
  have hne : addressKey 0x0C ≠ [] := List.cons_ne_nil _ _
  obtain ⟨hexact, hseen⟩ := reputation_exact (Checksum.keccak .ascii) (fun _ => false) deployed hrun
    hsorted (fun b hb => by rw [hin b hb]; decide) hranges Registry.readsResolved [] [] hne
  have hseen := hseen (fun _ _ => rfl) fun b hb => by rw [hin b hb]; decide
  have hrecord := hexact 0xA1 (addressKey 0xA1) (lower_addressKey _ _)
  rw [hblocks] at hseen hrecord
  refine ⟨r.1, r.2, Evm.Run.of_play hr, hrecorded, ?_, ?_⟩
  · rw [hrecord.service, hwins, hlosses]
    rfl
  · rw [hrecord.app, hseen, hwins, hlosses]

end Reputation.Demo

end Web
end Arcane
