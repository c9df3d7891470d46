import Arcane.PerformanceOracle.Reputation
import Arcane.Registry.OnChain
import Arcane.Web.Chain

/-!
# The reputation that the service shows

`_scan_resolve_history` of `registry_api.py` counts the `AdviceResolved` events of an operator, all
in one query over the whole chain.

* `oracleNode`: the answer of a node that keeps to its cap to such a query.
* `reputation_node`: the counts are those of the oracle's events, on a chain that one query may
  span; on a longer one everybody is at 0 and 0.
-/

namespace Arcane
namespace Registry

open Text Abi Evm PerformanceOracle

/-- `abi.encode` of an `int256`. -/
def signedWord (x : ℤ) : Bytes := word (x % 2 ^ 256).toNat

def resolvedSignature : Bytes :=
  AgentRegistry.signature "AdviceResolved(address,int64,int64,int256,bool)"

def resolvedTopics (x : AdviceResolved) : List Bytes :=
  [keccak256 resolvedSignature, addressWord x.agent]

def resolvedData (x : AdviceResolved) : Bytes :=
  signedWord x.p0.toInt ++ (signedWord x.p1.toInt ++ (signedWord x.rBps ++ word x.slashed.toNat))

/-- How a node writes the event. -/
def resolvedLog (addr : Str) (x : AdviceResolved) : EventLog where
  address := some addr
  topics := some ((resolvedTopics x).map Python.hex0x)
  data := some (Python.hex0x (resolvedData x))

/-! ## The service -/

/-- `abi_decode(["int64", "int64", "int256", "bool"], data)`. -/
abbrev ResolvedDecoder := Bytes → Option (ℤ × ℤ × ℤ × Bool)

/-- The decoder reads back what is encoded. -/
def ReadsResolved (abiDecode : ResolvedDecoder) : Prop :=
  ∀ x : AdviceResolved, I256.Fits x.rBps →
    abiDecode (resolvedData x) = some (x.p0.toInt, x.p1.toInt, x.rBps, x.slashed)

/-- The `int256` at position `i`. -/
def signedAt (b : Bytes) (i : ℕ) : Option ℤ := (wordAt b i).map I256.cast

/-- Such a decoder. -/
def decodeResolved : ResolvedDecoder := fun b => do
  let p0 ← signedAt b 0
  let p1 ← signedAt b 32
  let rBps ← signedAt b 64
  let slashed ← boolAt b 96
  return (p0, p1, rBps, slashed)

theorem signedAt_append {b r : Bytes} {i : ℕ} (h : b.length ≤ i) :
    signedAt (b ++ r) i = signedAt r (i - b.length) := by
  rw [signedAt, signedAt, wordAt_append h]

theorem signedAt_signedWord {x : ℤ} (h : I256.Fits x) (r : Bytes) :
    signedAt (signedWord x ++ r) 0 = some x := by
  have hrange := h
  unfold I256.Fits at hrange
  have hlt : (x % 2 ^ 256).toNat < 2 ^ 256 := by omega
  rw [signedAt, signedWord, wordAt_word hlt, Option.map_some, Option.some.injEq, I256.cast]
  split <;> omega

theorem readsResolved : ReadsResolved decodeResolved := by
  intro x hfits
  have hp0 : I256.Fits x.p0.toInt := by
    have := Int64.le_toInt x.p0
    have := Int64.toInt_lt x.p0
    unfold I256.Fits
    omega
  have hp1 : I256.Fits x.p1.toInt := by
    have := Int64.le_toInt x.p1
    have := Int64.toInt_lt x.p1
    unfold I256.Fits
    omega
  have hword (y : ℤ) : (signedWord y).length = 32 := length_word _
  have hbool : boolAt (word x.slashed.toNat) 0 = some x.slashed := by
    have hread := boolAt_word (r := []) x.slashed
    rwa [List.append_nil] at hread
  have hread1 : signedAt (resolvedData x) 32 = some x.p1.toInt := by
    rw [resolvedData, signedAt_append (by rw [hword]), hword, Nat.sub_self, signedAt_signedWord hp1]
  have hread2 : signedAt (resolvedData x) 64 = some x.rBps := by
    rw [resolvedData, signedAt_append (by rw [hword]; omega), hword,
      signedAt_append (by rw [hword]), hword, Nat.sub_self, signedAt_signedWord hfits]
  have hread3 : boolAt (resolvedData x) 96 = some x.slashed := by
    rw [resolvedData, boolAt_append (by rw [hword]; omega), hword,
      boolAt_append (by rw [hword]; omega), hword, boolAt_append (by rw [hword]), hword,
      Nat.sub_self, hbool]
  rw [decodeResolved, hread1, hread2, hread3, resolvedData, signedAt_signedWord hp0]
  rfl

section Service

variable (U : Unicode) (keccak : Bytes → Bytes) (abiDecode : ResolvedDecoder)
  (getLogs : List Str → Except Str (Option (List EventLog)))

/-- The loop of `_scan_resolve_history`: a log that cannot be read is skipped. -/
def countResolved (count : ℕ × ℕ) (lg : EventLog) : ℕ × ℕ :=
  let dataHex := Python.remove0x (match lg.data with
    | some (c :: data) => c :: data
    | _ => lit "0x")
  match (Python.fromHex dataHex).bind abiDecode with
  | none => count
  | some (_, _, _, slashed) =>
    if slashed then (count.1, count.2 + 1) else (count.1 + 1, count.2)

/-- `_scan_resolve_history`; `getLogs` asks for the logs of the oracle with these topics. -/
def scanResolveHistory (operator : Str) : Except Str (ℕ × ℕ) :=
  let topic0 := lit "0x" ++ Python.hex (keccak resolvedSignature)
  let agentTopic := lit "0x" ++ (List.replicate 24 (ofChar '0') ++
    Python.remove0x (U.lower operator))
  (getLogs [topic0, agentTopic]).map fun logs =>
    (logs.getD []).foldl (countResolved abiDecode) (0, 0)

/-- `_reputation_for`: wins and losses. -/
def reputationFor (oracle : Option Str) (operator : Str) : ℕ × ℕ :=
  match oracle with
  | none | some [] => (0, 0)
  | some _ =>
    match scanResolveHistory U keccak abiDecode getLogs operator with
    | .ok count => count
    | .error _ => (0, 0)

end Service

/-! ## The node -/

/-- The oracle's logs on a chain with the block `head`, filtered by their first topics, or the
refusal of a query over too many blocks. -/
def oracleNode (addr refusal : Str) (chain : List (ℤ × AdviceResolved)) (head : ℤ)
    (topics : List Str) : Except Str (Option (List EventLog)) :=
  match Web.node chain (·.1) (0, head) with
  | none => .error refusal
  | some logs => .ok (some ((logs.map fun e => resolvedLog addr e.2).filter fun lg =>
      topics <+: lg.topics.getD []))

variable {abiDecode : ResolvedDecoder} {addr : Str} {l : List AdviceResolved} {a : Address}

theorem toBytes_add {k n : ℕ} (h : n < 256 ^ k) (j : ℕ) :
    toBytes (j + k) n = List.replicate j 0 ++ toBytes k n := by
  induction k generalizing n with
  | zero =>
    obtain rfl : n = 0 := by simpa using h
    induction j with
    | zero => rfl
    | succ j ih =>
      have hstep : toBytes (j + 1 + 0) 0 = toBytes (j + 0) 0 ++ [0] := rfl
      rw [hstep, ih, List.replicate_succ']
      simp [toBytes]
  | succ k ih =>
    have hdiv : n / 256 < 256 ^ k := by
      rw [Nat.div_lt_iff_lt_mul (by decide), ← pow_succ]
      exact h
    rw [← Nat.add_assoc, toBytes, ih hdiv, toBytes, List.append_assoc]

/-- An address as an indexed topic. -/
theorem hex0x_addressWord (a : Address) : Python.hex0x (addressWord a) =
    lit "0x" ++ (List.replicate 24 (ofChar '0') ++ Python.hex (packedAddress a)) := by
  have hlt : a.val.toNat < 256 ^ 20 := lt_of_lt_of_eq a.val.isLt (by decide)
  have hword : addressWord a = List.replicate 12 0 ++ packedAddress a := toBytes_add hlt 12
  rw [Python.hex0x, hword, Python.hex_append]
  rfl

/-- The filter of the query keeps the events of the operator. -/
theorem topics_prefix_iff {x : AdviceResolved} :
    [lit "0x" ++ Python.hex (keccak256 resolvedSignature), Python.hex0x (addressWord a)] <+:
      (resolvedTopics x).map Python.hex0x ↔ x.agent = a := by
  have hinj : Python.hex0x (addressWord a) = Python.hex0x (addressWord x.agent) ↔ x.agent = a := by
    constructor
    · intro h
      rw [hex0x_addressWord, hex0x_addressWord] at h
      exact (Web.addressKey_injective (congrArg (lit "0x" ++ ·)
        (List.append_cancel_left (List.append_cancel_left h)))).symm
    · rintro rfl
      rfl
  rw [← hinj]
  simp [resolvedTopics, Python.hex0x, List.cons_prefix_cons]

theorem countResolved_log (hR : ReadsResolved abiDecode) {x : AdviceResolved}
    (hx : I256.Fits x.rBps) (count : ℕ × ℕ) :
    countResolved abiDecode count (resolvedLog addr x) =
      if x.slashed then (count.1, count.2 + 1) else (count.1 + 1, count.2) := by
  have hread : (Python.fromHex (Python.remove0x (Python.hex0x (resolvedData x)))).bind abiDecode =
      some (x.p0.toInt, x.p1.toInt, x.rBps, x.slashed) := by
    rw [Python.remove0x_hex0x, Python.fromHex_hex, Option.bind_some, hR x hx]
  rw [Python.hex0x_cons] at hread
  simp only [countResolved, resolvedLog, Python.hex0x_cons, hread]

/-- The loop over the logs of one operator. -/
theorem foldl_countResolved (hR : ReadsResolved abiDecode) (hl : ∀ x ∈ l, I256.Fits x.rBps)
    (hagent : ∀ x ∈ l, x.agent = a) (count : ℕ × ℕ) :
    (l.map (resolvedLog addr)).foldl (countResolved abiDecode) count =
      (count.1 + wins a l, count.2 + losses a l) := by
  induction l generalizing count with
  | nil => rfl
  | cons x l ih =>
    have hx := hagent x List.mem_cons_self
    rw [List.map_cons, List.foldl_cons, countResolved_log hR (hl x List.mem_cons_self),
      ih (fun y hy => hl y (List.mem_cons_of_mem _ hy))
        fun y hy => hagent y (List.mem_cons_of_mem _ hy)]
    cases hs : x.slashed with
    | true =>
      simp only [wins, losses, resolutions, List.countP_cons, hx, hs, if_true, Prod.mk.injEq]
      simp
      omega
    | false =>
      simp only [wins, losses, resolutions, List.countP_cons, hx, hs, Prod.mk.injEq]
      simp
      omega

theorem resolutions_filter (slashed : Bool) :
    resolutions a slashed (l.filter fun x => x.agent = a) = resolutions a slashed l := by
  rw [resolutions, resolutions, List.countP_filter]
  refine List.countP_congr fun x _ => ?_
  simp only [Bool.and_eq_true, decide_eq_true_eq]
  tauto

/-- The service counts the oracle's events of the operator, unless the chain has become too long for
the one query: then it shows no wins and no losses. -/
theorem reputation_node (U : Unicode) (hR : ReadsResolved abiDecode)
    {chain : List (ℤ × AdviceResolved)} {head : ℤ} (hfits : ∀ e ∈ chain, I256.Fits e.2.rBps)
    (hin : ∀ e ∈ chain, 0 ≤ e.1 ∧ e.1 ≤ head) {oracle : Str} (horacle : oracle ≠ [])
    (refusal : Str) (a : Address) :
    reputationFor U keccak256 abiDecode (oracleNode addr refusal chain head) (some oracle)
      (Web.addressKey a) =
      if head < Web.rpcCap then (wins a (chain.map (·.2)), losses a (chain.map (·.2)))
      else (0, 0) := by
  obtain ⟨c, oracle, rfl⟩ := List.exists_cons_of_ne_nil horacle
  have htopic : lit "0x" ++ (List.replicate 24 (ofChar '0') ++
      Python.remove0x (U.lower (Web.addressKey a))) = Python.hex0x (addressWord a) := by
    rw [Web.lower_addressKey, Web.addressKey, Python.remove0x_hex0x, hex0x_addressWord]
  simp only [reputationFor, scanResolveHistory, htopic]
  by_cases hcap : head < Web.rpcCap
  · have hwindow : head - 0 + 1 ≤ Web.rpcCap := by omega
    have hall : chain.filter (fun e => Windows.Window.Holds (0, head) e.1) = chain :=
      List.filter_eq_self.mpr fun e he => decide_eq_true (hin e he)
    have hfilter : ((chain.map fun e => resolvedLog addr e.2).filter fun lg =>
        [lit "0x" ++ Python.hex (keccak256 resolvedSignature), Python.hex0x (addressWord a)] <+:
          lg.topics.getD []) =
        ((chain.map (·.2)).filter fun x => x.agent = a).map (resolvedLog addr) := by
      rw [List.filter_map, List.filter_map, List.map_map]
      congr 1
      exact List.filter_congr fun e _ => decide_eq_decide.mpr topics_prefix_iff
    have hmem : ∀ x ∈ (chain.map (·.2)).filter fun x => x.agent = a,
        I256.Fits x.rBps ∧ x.agent = a := by
      intro x hx
      obtain ⟨hx, hagent⟩ := List.mem_filter.mp hx
      obtain ⟨e, he, rfl⟩ := List.mem_map.mp hx
      exact ⟨hfits e he, of_decide_eq_true hagent⟩
    rw [if_pos hcap]
    simp only [oracleNode, Web.node, if_pos hwindow, hall, Except.map, Option.getD_some, hfilter]
    rw [foldl_countResolved hR (fun x hx => (hmem x hx).1)
      (fun x hx => (hmem x hx).2), wins, losses, resolutions_filter, resolutions_filter]
    simp only [Nat.zero_add]
    rfl
  · have hwindow : ¬ head - 0 + 1 ≤ Web.rpcCap := by omega
    rw [if_neg hcap]
    simp only [oracleNode, Web.node, if_neg hwindow, Except.map]

end Registry
end Arcane
