import Arcane.Arena.Duelist

/-!
# The memory of a duelist

A duelist decides several times in a cycle and remembers once. What it has remembered is a diary
with one trace for each cycle; the memory service holds the codes of these traces.

* `diary`: the latest trace of each cycle.
* `after_remembers`: the memory after any calls is that of the diary.
* `memory_exact`: what the calls answer.
-/

namespace Arcane
namespace Arena
namespace Duelist

open Text Memory MemoryService

/-- The calls on a duelist. -/
inductive Op (F : Type) where
  | decide (complete : Str → Str → Option Str) (symbol marketBrief : Str) (injection : Option Str)
  | remember (x : Trace F)
  | memoryRoot

def Op.trace {F : Type} : Op F → Option (Trace F)
  | .remember x => some x
  | _ => none

def remembered {F : Type} (ops : List (Op F)) : List (Trace F) := ops.filterMap Op.trace

/-- The latest trace of each cycle. -/
def diary {F : Type} (xs : List (Trace F)) : Dict ℕ (Trace F) :=
  xs.foldl (fun d x => d.set x.cycle x) ∅

section Keeps

variable {F E : Type} (H : Host F E)

/-- The entry of a trace in a memory of dimension `dim` that is centered on the origin. -/
def entryOf (dim seed : ℕ) (embed : Str → List E) (x : Trace F) : Entry F :=
  let c := code H.numerics dim seed (zeros H.numerics dim) (embed x.reasoning)
  { traceId := traceId x.cycle
    kind := lit "pinned"
    pinned := true
    payload := x.payload
    bitsPacked := c.bitsPacked
    l1 := c.l1
    norm := c.norm
    weight := H.numerics.quot 1 1
    lastDecayTs := x.now }

/-- The memory holds the traces of the diary. -/
structure Keeps (dim seed : ℕ) (embed : Str → List E) (xs : List (Trace F))
    (m : MemoryService F E) : Prop where
  dim_eq : m.dim = dim
  seed_eq : m.seed = seed
  centre_eq : m.centre H.numerics = zeros H.numerics dim
  items_eq : m.entries.items =
    (diary xs).items.map fun p => (traceId p.1, entryOf H dim seed embed p.2)

variable {H} {dim seed : ℕ} {embed : Str → List E} {xs : List (Trace F)} {m m' : MemoryService F E}

theorem diary_concat (xs : List (Trace F)) (x : Trace F) :
    diary (xs ++ [x]) = (diary xs).set x.cycle x := by
  rw [diary, List.foldl_append]
  rfl

theorem get?_diary (xs : List (Trace F)) (cycle : ℕ) :
    (diary xs).get? cycle = (xs.filter fun x => x.cycle = cycle).getLast? := by
  induction xs using List.reverseRecOn with
  | nil => rfl
  | append_singleton xs x ih =>
    rw [diary_concat, Dict.get?_set, ih, List.filter_append]
    by_cases hx : x.cycle = cycle
    · simp [hx]
    · simp [hx, Ne.symm hx]

theorem diary_nil_iff : (diary xs).items = [] ↔ xs = [] := by
  induction xs using List.reverseRecOn with
  | nil => exact iff_of_true rfl rfl
  | append_singleton xs x _ =>
    refine iff_of_false (fun h => ?_) (by simp)
    have hget : (diary (xs ++ [x])).get? x.cycle = some x := by
      rw [diary_concat, Dict.get?_set, if_pos rfl]
    have hmem := Dict.mem_items.mp hget
    rw [h] at hmem
    cases hmem

theorem traceId_injective : Function.Injective traceId := fun _ _ h =>
  natText_inj (List.append_cancel_left h)

theorem keeps_new (decayLambdas : Dict Str (Double F)) :
    Keeps H dim seed embed [] (new H.numerics dim decayLambdas seed) where
  dim_eq := rfl
  seed_eq := rfl
  centre_eq := rfl
  items_eq := rfl

theorem Keeps.ensureCentroid (h : Keeps H dim seed embed xs m) :
    Keeps H dim seed embed xs (m.ensureCentroid H.numerics) where
  dim_eq := h.dim_eq
  seed_eq := h.seed_eq
  centre_eq := h.centre_eq
  items_eq := h.items_eq

/-- A query arms the centroid at most. -/
theorem Keeps.query (h : Keeps H dim seed embed xs m) (vec : List E) (k : ℤ) :
    Keeps H dim seed embed xs (m.query H.numerics vec k).1 := by
  unfold MemoryService.query
  split
  · exact h
  · split
    · exact h
    · next hencode =>
      obtain ⟨-, hr⟩ := encode_eq_some hencode
      rw [Prod.mk.injEq] at hr
      exact hr.1 ▸ h.ensureCentroid

theorem Keeps.add (h : Keeps H dim seed embed xs m) (hembed : ∀ text, (embed text).length = dim)
    (x : Trace F) : ∃ m', m.add H.numerics x.now (traceId x.cycle) (embed x.reasoning)
      (lit "episodic") true (some x.payload) = some m' ∧ Keeps H dim seed embed (xs ++ [x]) m' := by
  have hkind : ¬ lit "episodic" ∉ validKinds := by decide +kernel
  obtain ⟨rfl, rfl, hcentre, hitems⟩ := h
  have hlen : ¬ (embed x.reasoning).length ≠ m.dim := not_not.mpr (hembed _)
  refine ⟨{ m.ensureCentroid H.numerics with
    entries := m.entries.set (traceId x.cycle) (entryOf H m.dim m.seed embed x) }, ?_, ?_⟩
  · rw [MemoryService.add, if_neg hkind, encode, if_neg hlen, hcentre]
    rfl
  · refine ⟨rfl, rfl, hcentre, ?_⟩
    rw [diary_concat, Dict.items_set, Dict.items_set, hitems]
    exact Assoc.set_map traceId_injective _ _ (x.cycle, x)

/-- The entry of a cycle is that of its latest trace. -/
theorem Keeps.get? (h : Keeps H dim seed embed xs m) (cycle : ℕ) :
    m.entries.get? (traceId cycle) = ((diary xs).get? cycle).map (entryOf H dim seed embed) := by
  rw [Dict.get?, Dict.get?, h.items_eq, List.find?_map, Option.map_map, Option.map_map]
  simp only [Function.comp_def, traceId_injective.eq_iff]

theorem Keeps.keys (h : Keeps H dim seed embed xs m) :
    m.entries.keys = (diary xs).keys.map traceId := by
  rw [Dict.keys, Dict.keys, Assoc.keys, Assoc.keys, h.items_eq, List.map_map, List.map_map]
  rfl

theorem Keeps.values (h : Keeps H dim seed embed xs m) :
    m.entries.values = (diary xs).values.map (entryOf H dim seed embed) := by
  rw [Dict.values, Dict.values, h.items_eq, List.map_map, List.map_map]
  rfl

theorem Keeps.pinnedEntries (h : Keeps H dim seed embed xs m) :
    m.pinnedEntries = ((diary xs).values.map (entryOf H dim seed embed)).mergeSort
      fun a b => a.traceId ≤ b.traceId := by
  rw [MemoryService.pinnedEntries, h.values, List.filter_eq_self.mpr]
  intro e he
  obtain ⟨x, -, rfl⟩ := List.mem_map.mp he
  rfl

theorem Keeps.pinnedEntries_nil (h : Keeps H dim seed embed xs m) :
    m.pinnedEntries = [] ↔ xs = [] := by
  rw [h.pinnedEntries, ← diary_nil_iff, ← List.length_eq_zero_iff, ← List.length_eq_zero_iff,
    List.length_mergeSort, List.length_map, Dict.values, List.length_map]

theorem Keeps.pinnedIds_nil (h : Keeps H dim seed embed xs m) : m.pinnedIds = [] ↔ xs = [] := by
  have hpinned : m.entries.items.filter (·.2.pinned) = m.entries.items := by
    rw [h.items_eq]
    refine List.filter_eq_self.mpr fun p hp => ?_
    obtain ⟨x, -, rfl⟩ := List.mem_map.mp hp
    rfl
  rw [pinnedIds, hpinned, ← diary_nil_iff, h.items_eq, ← List.length_eq_zero_iff,
    ← List.length_eq_zero_iff, List.length_mergeSort, List.length_map, List.length_map]

/-- The answer to a query, as a function of what the memory holds. -/
theorem query_snd (m : MemoryService F E) (vec : List E) (k : ℤ) :
    (m.query H.numerics vec k).2 =
      if m.entries.items.length = 0 then some []
      else if vec.length ≠ m.dim then none
      else
        let scored := H.numerics.scan
          (code H.numerics m.dim m.seed (m.centre H.numerics) vec).rotated
          (m.entries.values.map fun e => (e.bitsPacked, e.l1, e.weight))
        (H.numerics.top scored k).map fun order =>
          order.filterMap fun j => m.entries.keys[j]?.bind fun tid => scored[j]?.map (tid, ·) := by
  unfold MemoryService.query encode
  split
  · rfl
  · by_cases hlen : vec.length ≠ m.dim
    · rw [if_pos hlen, if_pos hlen]
    · rw [if_neg hlen, if_neg hlen]
      rfl

/-- Two memories of the same traces answer alike. -/
theorem Keeps.query_congr (h : Keeps H dim seed embed xs m) (h' : Keeps H dim seed embed xs m')
    (vec : List E) (k : ℤ) :
    (m'.query H.numerics vec k).2 = (m.query H.numerics vec k).2 := by
  have hentries : m'.entries = m.entries := Dict.ext (h'.items_eq.trans h.items_eq.symm)
  rw [query_snd, query_snd, hentries, h.dim_eq, h'.dim_eq, h.seed_eq, h'.seed_eq, h.centre_eq,
    h'.centre_eq]

/-- A query answers the latest traces of some cycles, each once. -/
theorem Keeps.hits (h : Keeps H dim seed embed xs m)
    (htop : ∀ scores k is, 0 < k → H.numerics.top scores k = some is →
      is.Nodup ∧ is.length ≤ k.toNat)
    {vec : List E} (hvec : vec.length = dim) {k : ℤ} (hk : 0 < k) :
    ∃ hits, ∃ cycles : List ℕ, (m.query H.numerics vec k).2 = some hits ∧ cycles.Nodup ∧
      cycles.length ≤ k.toNat ∧ hits.map (·.1) = cycles.map traceId := by
  rw [query_snd]
  by_cases hnil : m.entries.items.length = 0
  · exact ⟨[], [], if_pos hnil, .nil, Nat.zero_le _, rfl⟩
  · rw [if_neg hnil, if_neg (not_not.mpr (hvec.trans h.dim_eq.symm))]
    dsimp only
    generalize hscored : H.numerics.scan _ _ = scored
    have hlen : scored.length = m.entries.keys.length := by
      rw [← hscored, H.numerics.length_scan, List.length_map, Dict.values, Dict.keys, Assoc.keys,
        List.length_map, List.length_map]
    obtain ⟨order, horder⟩ := Option.isSome_iff_exists.mp (H.numerics.top_isSome scored k hk)
    obtain ⟨hnodup, hle⟩ := htop _ _ _ hk horder
    refine ⟨_, order.filterMap fun j => (diary xs).keys[j]?, by rw [horder]; rfl, ?_, ?_, ?_⟩
    · refine hnodup.filterMap fun i j c hi hj => ?_
      obtain ⟨hlt, -⟩ := List.getElem?_eq_some_iff.mp hi
      exact (List.getElem?_inj hlt (diary xs).nodup).mp (hi.trans hj.symm)
    · exact (List.length_filterMap_le _ _).trans hle
    · rw [List.map_filterMap, List.map_filterMap]
      refine List.filterMap_congr fun j hj => ?_
      have hlt := H.numerics.lt_of_mem_top _ _ _ horder j hj
      rw [h.keys, List.getElem?_map, List.getElem?_eq_getElem hlt]
      cases (diary xs).keys[j]? <;> rfl

end Keeps

/-! ## The calls -/

section Calls

variable {F E : Type} [Json.FloatText F] (H : Host F E)

/-- The duelist after a call, whether or not it raises. -/
def step (d : Duelist F E) : Op F → Duelist F E
  | .decide complete symbol marketBrief injection =>
    (d.decide H complete symbol marketBrief injection).1
  | .remember x => (d.remember H x).getD d
  | .memoryRoot => d

def after (d : Duelist F E) (ops : List (Op F)) : Duelist F E := ops.foldl (step H) d

/-- The line of a trace in the prompt. -/
def lineOf (x : Trace F) : Option Str :=
  let text := trim H.unicode.space x.reasoning
  if text = [] then none else some (lit "- " ++ text)

/-- The block of the prompt with these lines. -/
def blockOf (lines : List Str) : Str :=
  if lines = [] then []
  else lit "Your recent reasoning (memory):\n" ++ List.intercalate (lit "\n") lines

/-- A duelist that has remembered `xs`. -/
structure Remembers (dim seed : ℕ) (embed : Str → List E) (d₀ : Duelist F E) (xs : List (Trace F))
    (d : Duelist F E) : Prop where
  memory : ∃ m, d = { d₀ with memory := some m } ∧ Keeps H dim seed embed xs m

variable {H} {dim seed : ℕ} {embed : Str → List E} {xs : List (Trace F)} {d₀ d : Duelist F E}

theorem decide_fst (complete : Str → Str → Option Str) (symbol marketBrief : Str)
    (injection : Option Str) :
    (d.decide H complete symbol marketBrief injection).1 = (d.recallBlock H marketBrief).1 := by
  unfold decide
  split
  · next hblock => rw [hblock]
  · next hblock => rw [hblock]

theorem step_remembers (hd₀ : d₀.embedder = some embed)
    (hembed : ∀ text, (embed text).length = dim) (op : Op F)
    (h : Remembers H dim seed embed d₀ xs d) :
    Remembers H dim seed embed d₀ (xs ++ op.trace.toList) (step H d op) := by
  obtain ⟨m, rfl, hm⟩ := h
  cases op with
  | decide complete symbol marketBrief injection =>
    simp only [step, decide_fst, Op.trace, Option.toList_none, List.append_nil]
    refine ⟨_, ?_, hm.query (embed marketBrief) d₀.recallK⟩
    simp [recallBlock, active, hd₀]
  | remember x =>
    obtain ⟨m', hadd, hm'⟩ := hm.add hembed x
    refine ⟨m', ?_, hm'⟩
    simp [step, remember, active, hd₀, hadd]
  | memoryRoot =>
    simp only [step, Op.trace, Option.toList_none, List.append_nil]
    exact ⟨m, rfl, hm⟩

theorem after_remembers (hd₀ : d₀.embedder = some embed)
    (hembed : ∀ text, (embed text).length = dim) (h₀ : Remembers H dim seed embed d₀ [] d₀)
    (ops : List (Op F)) : Remembers H dim seed embed d₀ (remembered ops) (after H d₀ ops) := by
  induction ops using List.reverseRecOn with
  | nil => exact h₀
  | append_singleton ops op ih =>
    have hstep := step_remembers hd₀ hembed op ih
    rw [after, List.foldl_append, remembered, List.filterMap_append]
    cases op <;> exact hstep

theorem recallLine_entries {m : MemoryService F E} (h : Keeps H dim seed embed xs m) (cycle : ℕ) :
    recallLine H m.entries (traceId cycle) = ((diary xs).get? cycle).bind (lineOf H) := by
  rw [recallLine, h.get?]
  cases (diary xs).get? cycle with
  | none => rfl
  | some x =>
    have htext : field H (entryOf H dim seed embed x).payload "text" =
        trim H.unicode.space x.reasoning := rfl
    rw [Option.map_some, Option.bind_some, Option.bind_some, lineOf, htext]

/-- The root of the memory, when it is asked for. -/
theorem Keeps.memoryRoot {m : MemoryService F E} (h : Keeps H dim seed embed xs m) :
    ({ d₀ with memory := some m } : Duelist F E).memoryRoot =
      if xs = [] then some [] else m.pinnedMerkleRoot := by
  simp only [Duelist.memoryRoot, h.pinnedIds_nil]

theorem Keeps.pinnedMerkleRoot {m : MemoryService F E} (h : Keeps H dim seed embed xs m)
    (hne : xs ≠ []) : m.pinnedMerkleRoot =
      (((diary xs).values.map (entryOf H dim seed embed)).mergeSort
        fun a b => a.traceId ≤ b.traceId).mapM pinnedLeaf >>= Merkle.root node := by
  have hsome : ¬ m.pinnedEntries.isEmpty = true := fun h' =>
    hne (h.pinnedEntries_nil.mp (List.isEmpty_iff.mp h'))
  rw [MemoryService.pinnedMerkleRoot, if_neg hsome, h.pinnedEntries]

theorem recallBlock_snd {m : MemoryService F E} (hd₀ : d₀.embedder = some embed)
    (marketBrief : Str) :
    (({ d₀ with memory := some m } : Duelist F E).recallBlock H marketBrief).2 =
      (m.query H.numerics (embed marketBrief) d₀.recallK).2.map fun hits =>
        blockOf (hits.filterMap fun hit => recallLine H m.entries hit.1) := by
  have hactive : ({ d₀ with memory := some m } : Duelist F E).active = some (m, embed) := by
    simp [active, hd₀]
  rw [recallBlock, hactive]
  simp only [entries_query]
  rfl

theorem decide_snd (complete : Str → Str → Option Str) (symbol marketBrief : Str)
    (injection : Option Str) :
    (d.decide H complete symbol marketBrief injection).2 =
      match (d.recallBlock H marketBrief).2 with
      | none => .error .memory
      | some recalled =>
        match complete (d.systemPrompt H symbol) (userPrompt recalled marketBrief injection) with
        | none => .error .model
        | some raw => parseDecision H raw := by
  have hprompt :
      (d.recallBlock H marketBrief).1.systemPrompt H symbol = d.systemPrompt H symbol := by
    unfold recallBlock
    split <;> rfl
  unfold decide
  split
  · next hblock => simp only [hblock]
  · next hblock =>
    rw [hblock] at hprompt ⊢
    generalize d.systemPrompt H symbol = prompt at hprompt ⊢
    subst hprompt
    rfl

/-- What the calls `ops` on a new duelist come to. -/
structure MemoryExact (H : Host F E) (dim seed : ℕ) (embed : Str → List E) (d₀ : Duelist F E)
    (ops : List (Op F)) : Prop where
  /-- The memory has one trace for each cycle that was remembered, the latest. -/
  memory : ∃ m, (after H d₀ ops).memory = some m ∧ m.entries.items =
    (diary (remembered ops)).items.map fun p => (traceId p.1, entryOf H dim seed embed p.2)
  latest : ∀ cycle, (diary (remembered ops)).get? cycle =
    ((remembered ops).filter fun x => x.cycle = cycle).getLast?
  /-- A decision recalls the traces of at most `recallK` cycles, each once, if that is positive. -/
  recalled : 0 < d₀.recallK → ∀ marketBrief, ∃ cycles : List ℕ, cycles.Nodup ∧
    cycles.length ≤ d₀.recallK.toNat ∧ ((after H d₀ ops).recallBlock H marketBrief).2 =
      some (blockOf (cycles.filterMap fun cycle =>
        ((diary (remembered ops)).get? cycle).bind (lineOf H)))
  /-- Decisions and roots in between change no decision: with and without an injection, the model is
  shown the same traces. -/
  repeatable : ∀ more, remembered more = [] → ∀ complete symbol marketBrief injection,
    ((after H d₀ (ops ++ more)).decide H complete symbol marketBrief injection).2 =
      ((after H d₀ ops).decide H complete symbol marketBrief injection).2
  /-- The root is that of all traces in the order of their ids. -/
  root : (after H d₀ ops).memoryRoot =
    if remembered ops = [] then some []
    else (((diary (remembered ops)).values.map (entryOf H dim seed embed)).mergeSort
      fun a b => a.traceId ≤ b.traceId).mapM pinnedLeaf >>= Merkle.root node
  /-- A root that is not empty is always there to anchor once something was remembered. -/
  anchored : ∀ r, (after H d₀ ops).memoryRoot = some r → (r = [] ↔ remembered ops = [])

theorem memory_exact {decayLambdas : Dict Str (Double F)} {d₀ : Duelist F E}
    (hmemory : d₀.memory = some (new H.numerics dim decayLambdas seed))
    (hd₀ : d₀.embedder = some embed) (hembed : ∀ text, (embed text).length = dim)
    (htop : ∀ scores k is, 0 < k → H.numerics.top scores k = some is →
      is.Nodup ∧ is.length ≤ k.toNat)
    (ops : List (Op F)) : MemoryExact H dim seed embed d₀ ops := by
  have h₀ : Remembers H dim seed embed d₀ [] d₀ :=
    ⟨_, by rw [← hmemory], keeps_new decayLambdas⟩
  obtain ⟨m, hd, hm⟩ := after_remembers hd₀ hembed h₀ ops
  refine ⟨⟨m, by rw [hd], hm.items_eq⟩, get?_diary _, ?_, ?_, ?_, ?_⟩
  · intro hk marketBrief
    obtain ⟨hits, cycles, hquery, hnodup, hle, hhits⟩ := hm.hits htop (hembed marketBrief) hk
    refine ⟨cycles, hnodup, hle, ?_⟩
    rw [hd, recallBlock_snd hd₀, hquery, Option.map_some]
    have hlines : hits.filterMap (fun hit => recallLine H m.entries hit.1) =
        (hits.map (·.1)).filterMap (recallLine H m.entries) := by
      rw [List.filterMap_map]
      rfl
    rw [hlines, hhits, List.filterMap_map]
    simp only [Function.comp_def, recallLine_entries hm]
  · intro more hmore complete symbol marketBrief injection
    obtain ⟨m', hd', hm'⟩ := after_remembers hd₀ hembed h₀ (ops ++ more)
    have hsame : remembered (ops ++ more) = remembered ops := by
      rw [remembered, List.filterMap_append, ← remembered, ← remembered, hmore, List.append_nil]
    rw [hsame] at hm'
    have hentries : m'.entries = m.entries := Dict.ext (hm'.items_eq.trans hm.items_eq.symm)
    rw [decide_snd, decide_snd, hd, hd', recallBlock_snd hd₀, recallBlock_snd hd₀,
      hm.query_congr hm', hentries]
    rfl
  · rw [hd, hm.memoryRoot]
    split
    · rfl
    · next hne => exact hm.pinnedMerkleRoot hne
  · intro r hr
    rw [hd, hm.memoryRoot] at hr
    split at hr
    · next hnil => exact iff_of_true (Option.some.inj hr).symm hnil
    · next hne =>
      obtain ⟨t, -, rfl, -⟩ := root_hashed hr
      refine iff_of_false (fun h => ?_) hne
      have hlen := length_sha256 t
      rw [h] at hlen
      cases hlen

end Calls

namespace Demo

open MemoryService.Demo

def host : Host Flt Flt where
  numerics := numerics
  unicode := .ascii
  upper s := s
  shown v := match v with
    | .obj _ => lit "\x7b\x7d"
    | _ => lit "[]"
  shown_arr _ := ⟨_, rfl⟩
  shown_obj _ := ⟨_, rfl⟩
  lower_bracket := by
    rintro c s (rfl | rfl)
    · exact ⟨_, rfl⟩
    · exact ⟨_, rfl⟩

/-- A duelist that codes every text alike. -/
def naive : Duelist Flt Flt where
  hardened := false
  persona := []
  memory := some (new numerics 1 lambdas 0)
  embedder := some fun _ => [.one]
  recallK := 3

/-- Two cycles, and the first one again, as in a second duel. -/
def calls : List (Op Flt) :=
  [.decide (fun _ _ => none) (lit "SOL") (lit "flat") none,
    .remember ⟨0, lit "up", 1, 5, now⟩, .remember ⟨1, lit "down", -1, 5, now⟩, .memoryRoot,
    .remember ⟨0, lit "again", 1, 7, now⟩]

theorem calls_remembered : MemoryExact host 1 0 (fun _ => [.one]) naive calls ∧
    (diary (remembered calls)).keys = [0, 1] := by
  have hembed : ∀ text : Str, ((fun _ => [.one] : Str → List Flt) text).length = 1 := fun _ => rfl
  have htop : ∀ scores k is, 0 < k → host.numerics.top scores k = some is →
      is.Nodup ∧ is.length ≤ k.toNat := by
    intro scores k is _ h
    obtain rfl := Option.some.inj h
    refine ⟨List.nodup_range.sublist (List.take_sublist _ _), ?_⟩
    rw [List.length_take]
    exact min_le_left _ _
  exact ⟨memory_exact rfl rfl hembed htop calls, by decide +kernel⟩

end Demo

end Duelist
end Arena
end Arcane
