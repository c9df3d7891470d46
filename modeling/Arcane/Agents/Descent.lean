import Arcane.Agents.Bob
import Arcane.Lib.Traverse
import Arcane.Memory.Live

/-!
# How agents come about

* `Agent`: a Bob that was bootstrapped or spawned, and whose memory was used since.
* `pinRules_eq_some`: the entries that the loops over rules store.
* `cloneMemory_entries`: the entries that a child is given.
* `Agent.established`, `Agent.forall_entries`: what holds of every agent and of the entries of its
  memory.
-/

namespace Arcane
namespace Agents

open Text Evm Memory MemoryService

variable {F E : Type} {P : Platform F E}

/-- A Bob that was bootstrapped or spawned, and whose memory was used since. -/
inductive Agent (P : Platform F E) : Bob F E → Prop
  | bootstrap (account : Address) (clock : ℕ → F) {bob agent : Bob F E} :
    bob.eoa = none → bob.bootstrap P account clock = some agent → Agent P agent
  | use (c : Live F E) {agent : Bob F E} {memory : MemoryService F E} :
    Agent P agent → agent.memory = some memory →
    Agent P { agent with memory := some (live P.numerics memory c) }
  | spawn (account : Address) (clock : ℕ → F) (childBudgetUsdc : Option (Double F))
    (extraRules : List (Rule F)) (memoryWorkingCap : Option ℤ) {parent child : Bob F E} :
    Agent P parent →
    (parent.spawnChild P account clock childBudgetUsdc extraRules memoryWorkingCap).2 = some child →
    Agent P child

/-! ## Rules that are pinned -/

/-- No exception is raised for a rule that is pinned. -/
structure Pinnable (P : Platform F E) (r : Rule F) : Prop where
  text : (utf8 (ruleCanonicalText P r)).isSome
  label : (label P r).isSome

/-- The entry is one that is stored for the rule. -/
inductive Pins (P : Platform F E) (r : Rule F) : Entry F → Prop
  | newEntry (memory : MemoryService F E) (now : F) (traceId : Str) (vec : List E) :
    label P r = some traceId →
    Pins P r (memory.newEntry P.numerics (.finite now) traceId vec (lit "pinned") true
      (some (payload P r).items))

/-- An entry under its trace id. -/
def keyed (e : Entry F) : Str × Entry F := (e.traceId, e)

section Pin

variable {r : Rule F} {rules : List (Rule F)} {memory memory' : MemoryService F E} {e : Entry F}
  {dim seed : ℕ} {now : F} {clock : ℕ → F} {s : Str} {v : List E}

theorem Pins.label (h : Pins P r e) : label P r = some e.traceId := by
  cases h
  assumption

theorem Pins.payload (h : Pins P r e) : e.payload = (payload P r).items := by
  cases h
  rfl

theorem Pins.pinned (h : Pins P r e) : e.pinned = true := by
  cases h
  rfl

theorem length_hashToVec (h : hashToVec P s dim seed = some v) : v.length = dim := by
  simp only [hashToVec, Option.bind_eq_bind, Option.bind_eq_some_iff, Option.pure_def] at h
  obtain ⟨b, -, h⟩ := h
  split at h
  · rw [← Option.some.inj h, P.length_standardNormal]
  · rw [← Option.some.inj h, List.length_map, P.length_standardNormal]

theorem hashToVec_isSome : (hashToVec P s dim seed).isSome ↔ (utf8 s).isSome := by
  cases h : utf8 s with
  | none => simp [hashToVec, h]
  | some b =>
    simp only [hashToVec, h, Option.bind_eq_bind, Option.bind_some, Option.pure_def]
    split <;> simp

theorem mem_pinned : lit "pinned" ∈ validKinds := by decide

theorem pinRule_eq_some (h : pinRule P dim seed (.finite now) memory r = some memory') :
    Pinnable P r ∧ ∃ e, Pins P r e ∧ memory' = { memory.ensureCentroid P.numerics with
      entries := memory.entries.set e.traceId e } := by
  simp only [pinRule, Option.bind_eq_bind, Option.bind_eq_some_iff] at h
  obtain ⟨vec, hvec, traceId, hlabel, hadd⟩ := h
  obtain ⟨-, -, rfl⟩ := add_eq_some_iff.mp hadd
  refine ⟨⟨?_, Option.isSome_of_eq_some hlabel⟩, _, .newEntry memory now traceId vec hlabel, rfl⟩
  exact hashToVec_isSome.mp (Option.isSome_of_eq_some hvec)

theorem pinRule_isSome (hr : Pinnable P r) (hdim : memory.dim = dim) :
    (pinRule P dim seed (.finite now) memory r).isSome := by
  have hsome : (hashToVec P (ruleCanonicalText P r) dim seed).isSome :=
    hashToVec_isSome.mpr hr.text
  obtain ⟨vec, hvec⟩ := Option.isSome_iff_exists.mp hsome
  obtain ⟨traceId, hlabel⟩ := Option.isSome_iff_exists.mp hr.label
  apply Option.isSome_of_eq_some
  simp only [pinRule, hvec, hlabel, Option.bind_eq_bind, Option.bind_some]
  exact add_eq_some_iff.mpr ⟨mem_pinned, by rw [length_hashToVec hvec, hdim], rfl⟩

/-- The rules are stored one after the other. -/
theorem pinRules_eq_some (h : pinRules P dim seed clock rules memory = some memory') :
    (∀ r ∈ rules, Pinnable P r) ∧ ∃ es centroid, List.Forall₂ (Pins P) rules es ∧
      memory' = { memory with
        centroid := centroid
        entries := memory.entries.update (es.map keyed) } := by
  induction rules generalizing clock memory with
  | nil =>
    cases h
    exact ⟨by simp, [], memory'.centroid, .nil, rfl⟩
  | cons r rules ih =>
    simp only [pinRules, Option.bind_eq_bind, Option.bind_eq_some_iff] at h
    obtain ⟨middle, hr, hrules⟩ := h
    obtain ⟨hpin, e, he, rfl⟩ := pinRule_eq_some hr
    obtain ⟨hall, es, centroid, hes, rfl⟩ := ih hrules
    exact ⟨List.forall_mem_cons.mpr ⟨hpin, hall⟩, e :: es, centroid, .cons he hes, rfl⟩

theorem pinRules_isSome (hrules : ∀ r ∈ rules, Pinnable P r) (hdim : memory.dim = dim) :
    (pinRules P dim seed clock rules memory).isSome := by
  induction rules generalizing clock memory with
  | nil => rfl
  | cons r rules ih =>
    obtain ⟨hr, hrules⟩ := List.forall_mem_cons.mp hrules
    have hsome : (pinRule P dim seed (.finite (clock 0)) memory r).isSome := pinRule_isSome hr hdim
    obtain ⟨middle, hmiddle⟩ := Option.isSome_iff_exists.mp hsome
    obtain ⟨-, e, -, rfl⟩ := pinRule_eq_some hmiddle
    rw [pinRules, hmiddle, Option.bind_eq_bind, Option.bind_some]
    exact ih hrules hdim

end Pin

/-! ## Bootstrapping -/

/-- A constitution that no exception is raised for. -/
structure Accepted (P : Platform F E) (rules : List (Rule F)) : Prop where
  solidity : (solidity P rules).isSome
  hash : (constitutionHash P rules).isSome
  pinnable : ∀ r ∈ rules, Pinnable P r

theorem bootstrap_eq_some {bob agent : Bob F E} {account : Address} {clock : ℕ → F}
    (heoa : bob.eoa = none) (h : bob.bootstrap P account clock = some agent) :
    Accepted P bob.constitutionRules ∧ ∃ sol hash es centroid,
      List.Forall₂ (Pins P) bob.constitutionRules es ∧
      agent = { bob with
        eoa := some account
        solidityRules := sol
        constitutionHash := some hash
        memory := some { MemoryService.new P.numerics bob.embeddingDim ∅ bob.seed with
          centroid := centroid
          entries := (∅ : Dict Str (Entry F)).update (es.map keyed) } } := by
  have hfalse : ¬ bob.eoa.isSome = true := by simp [heoa]
  simp only [Bob.bootstrap, if_neg hfalse, Option.bind_eq_bind, Option.bind_eq_some_iff,
    Option.pure_def, Option.some.injEq] at h
  obtain ⟨sol, hsol, hash, hhash, memory, hmemory, rfl⟩ := h
  obtain ⟨hpin, es, centroid, hes, rfl⟩ := pinRules_eq_some hmemory
  exact ⟨⟨Option.isSome_of_eq_some hsol, Option.isSome_of_eq_some hhash, hpin⟩,
    sol, hash, es, centroid, hes, rfl⟩

theorem bootstrap_isSome {bob : Bob F E} (h : Accepted P bob.constitutionRules) (account : Address)
    (clock : ℕ → F) : (bob.bootstrap P account clock).isSome := by
  rw [Bob.bootstrap]
  split
  · rfl
  · obtain ⟨sol, hsol⟩ := Option.isSome_iff_exists.mp h.solidity
    obtain ⟨hash, hhash⟩ := Option.isSome_iff_exists.mp h.hash
    have hsome : (pinRules P bob.embeddingDim bob.seed clock bob.constitutionRules
        (.new P.numerics bob.embeddingDim ∅ bob.seed)).isSome := pinRules_isSome h.pinnable rfl
    obtain ⟨memory, hmemory⟩ := Option.isSome_iff_exists.mp hsome
    simp only [hsol, hhash, hmemory, Option.bind_eq_bind, Option.bind_some]
    rfl

/-! ## Memories that are cloned -/

section Clone

variable {memory : MemoryService F E} {bob : Bob F E}

/-- The items that are pinned. -/
def pinnedItems (memory : MemoryService F E) : List (Str × Entry F) :=
  memory.entries.items.filter (·.2.pinned)

/-- The entries that are not pinned, in the order in which a child takes them. -/
def working (P : Platform F E) (memory : MemoryService F E) : List (Entry F) :=
  (memory.entries.values.filter fun e => !e.pinned).mergeSort fun e e' => !Bob.keyLt P e' e

theorem mem_working {e : Entry F} :
    e ∈ working P memory ↔ e ∈ memory.entries.values ∧ e.pinned = false := by
  rw [working, List.mem_mergeSort, List.mem_filter, Bool.not_eq_true']

/-- The pinned and the other items are all there are. -/
theorem items_perm (hkeyed : ∀ m ∈ memory.entries.items, m.2.traceId = m.1) :
    (pinnedItems memory ++ (working P memory).map keyed).Perm memory.entries.items := by
  have hself : (memory.entries.values.filter fun e => !e.pinned).map keyed =
      memory.entries.items.filter fun m => !m.2.pinned := by
    rw [Dict.values, List.filter_map, List.map_map]
    refine (List.map_congr_left fun m hm => ?_).trans (List.map_id _)
    exact Prod.ext (hkeyed m (List.mem_filter.mp hm).1) rfl
  have hworking : ((working P memory).map keyed).Perm
      (memory.entries.items.filter fun m => !m.2.pinned) := by
    rw [← hself]
    exact (List.mergeSort_perm _ _).map _
  exact (hworking.append_left _).trans (List.filter_append_perm _ _)

theorem nodup_clone (hkeyed : ∀ m ∈ memory.entries.items, m.2.traceId = m.1) (n : ℕ) :
    (Assoc.keys (pinnedItems memory ++ ((working P memory).take n).map keyed)).Nodup := by
  have hall : (Assoc.keys (pinnedItems memory ++ (working P memory).map keyed)).Nodup :=
    ((items_perm hkeyed).map _).nodup_iff.mpr memory.entries.nodup
  refine hall.sublist (List.Sublist.map _ ?_)
  exact ((List.take_sublist n _).map _).append_left _

/-- What a child is given: all that is pinned, and the first of the rest. -/
theorem cloneMemory_entries (P : Platform F E) (cap : ℤ)
    (hkeyed : ∀ m ∈ memory.entries.items, m.2.traceId = m.1) (hm : bob.memory = some memory) :
    ∃ entries : Dict Str (Entry F),
      entries.items = pinnedItems memory ++ ((working P memory).take cap.toNat).map keyed ∧
      bob.cloneMemoryForChild P cap = some
        { MemoryService.new P.numerics memory.dim memory.decayLambdas memory.seed with
          centroid := memory.centroid
          entries := entries } := by
  have hpinned : ((memory.entries.items.filter (·.2.pinned)).map fun m =>
      (m.1, { m.2 with pinned := true })) = pinnedItems memory := by
    refine (List.map_congr_left fun m hm => ?_).trans (List.map_id _)
    have htrue : m.2.pinned = true := (List.mem_filter.mp hm).2
    exact Prod.ext rfl (by rw [← htrue]; rfl)
  have hkept : (if cap > 0 then (working P memory).take cap.toNat else []) =
      (working P memory).take cap.toNat := by
    split
    · rfl
    · next hcap => rw [Int.toNat_of_nonpos (not_lt.mp hcap), List.take_zero]
  have hworking : ((working P memory).take cap.toNat).map (fun e =>
      (e.traceId, { e with pinned := false })) =
      ((working P memory).take cap.toNat).map keyed := by
    refine List.map_congr_left fun e he => ?_
    have hfalse : e.pinned = false := (mem_working.mp (List.mem_of_mem_take he)).2
    exact Prod.ext rfl (by rw [← hfalse]; rfl)
  have hnodup := nodup_clone (P := P) hkeyed cap.toNat
  refine ⟨((∅ : Dict Str (Entry F)).update (pinnedItems memory)).update
    (((working P memory).take cap.toNat).map keyed), ?_, ?_⟩
  · have hfirst : ((∅ : Dict Str (Entry F)).update (pinnedItems memory)).items =
        pinnedItems memory :=
      Dict.items_update_of_nodup
        (hnodup.sublist (List.Sublist.map _ (List.sublist_append_left _ _)))
    rw [Dict.items_update_of_nodup (by rw [hfirst]; exact hnodup), hfirst]
  · rw [← hworking, ← hkept, ← hpinned, Bob.cloneMemoryForChild, hm]
    rfl

end Clone

/-! ## Every agent -/

/-- What holds of an agent with the memory. -/
structure Established (P : Platform F E) (agent : Bob F E) (memory : MemoryService F E) :
    Prop where
  eoa : agent.eoa.isSome
  holds : agent.memory = some memory
  dim : memory.dim = agent.embeddingDim
  lambdas : memory.decayLambdas = defaultLambdas P.numerics
  accepted : Accepted P agent.constitutionRules
  keyed : ∀ m ∈ memory.entries.items, m.2.traceId = m.1

section Spawn

variable {parent child : Bob F E} {memory : MemoryService F E} {account : Address} {clock : ℕ → F}
  {childBudgetUsdc : Option (Double F)} {extraRules : List (Rule F)} {memoryWorkingCap : Option ℤ}

/-- How many entries that are not pinned a child is given at most. -/
def workingCap (memoryWorkingCap : Option ℤ) : ℕ :=
  (memoryWorkingCap.getD Bob.defaultChildWorkingCap).toNat

/-- What the memory of a child is made of: the clone, and the rules that are new. -/
structure Spawned (P : Platform F E) (parent child : Bob F E) (memory : MemoryService F E)
    (extraRules : List (Rule F)) (n : ℕ) (es : List (Entry F)) (childMemory : MemoryService F E) :
    Prop where
  eoa : child.eoa.isSome
  holds : child.memory = some childMemory
  embeddingDim : child.embeddingDim = parent.embeddingDim
  constitutionRules : child.constitutionRules = parent.constitutionRules ++ extraRules
  accepted : Accepted P child.constitutionRules
  pins : List.Forall₂ (Pins P) extraRules es
  dim : childMemory.dim = memory.dim
  seed : childMemory.seed = memory.seed
  lambdas : childMemory.decayLambdas = memory.decayLambdas
  centroid : extraRules = [] → childMemory.centroid = memory.centroid
  entries : ∃ cloned : Dict Str (Entry F),
    cloned.items = pinnedItems memory ++ ((working P memory).take n).map keyed ∧
    childMemory.entries = cloned.update (es.map keyed)

/-- The default constants are not replaced. -/
theorem lambdas_new (P : Platform F E) (dim seed : ℕ) {lambdas : Dict Str (Double F)}
    (h : lambdas = defaultLambdas P.numerics) :
    (MemoryService.new P.numerics dim lambdas seed : MemoryService F E).decayLambdas = lambdas := by
  rw [MemoryService.new, h]
  split <;> rfl

theorem spawned_of_spawnChild (h : Established P parent memory)
    (hchild : (parent.spawnChild P account clock childBudgetUsdc extraRules memoryWorkingCap).2 =
      some child) :
    P.numerics.lt parent.budgetUsdc (parent.childBudget P childBudgetUsdc) = false ∧
      ∃ es childMemory, Spawned P parent child memory extraRules (workingCap memoryWorkingCap) es
        childMemory := by
  obtain ⟨entries, hitems, hclone⟩ := cloneMemory_entries P
    (memoryWorkingCap.getD Bob.defaultChildWorkingCap) h.keyed h.holds
  obtain ⟨eoa, heoa⟩ := Option.isSome_iff_exists.mp h.eoa
  simp only [Bob.spawnChild, Bob.spawned, heoa, Option.bind_eq_bind, Option.bind_some] at hchild
  split at hchild
  · cases hchild
  · next hbudget =>
    rw [Option.bind_eq_some_iff] at hchild
    obtain ⟨booted, hboot, hchild⟩ := hchild
    obtain ⟨haccepted, sol, hash, own, armed, -, rfl⟩ := bootstrap_eq_some rfl hboot
    rw [hclone, Option.bind_some, Option.bind_eq_some_iff] at hchild
    obtain ⟨childMemory, hpins, hchild⟩ := hchild
    cases hchild
    obtain ⟨-, es, centroid, hes, rfl⟩ := pinRules_eq_some hpins
    refine ⟨Bool.eq_false_iff.mpr hbudget, es, _, rfl, rfl, rfl, rfl, haccepted, hes, rfl, rfl,
      lambdas_new P memory.dim memory.seed h.lambdas, ?_, entries, hitems, rfl⟩
    rintro rfl
    cases hes
    cases hpins
    rfl

/-- A child is spawned where its budget is not too high and its rules are accepted. -/
theorem spawnChild_isSome (h : Established P parent memory)
    (haccepted : Accepted P (parent.constitutionRules ++ extraRules))
    (hbudget : P.numerics.lt parent.budgetUsdc (parent.childBudget P childBudgetUsdc) = false) :
    (parent.spawnChild P account clock childBudgetUsdc extraRules memoryWorkingCap).2.isSome := by
  obtain ⟨entries, -, hclone⟩ := cloneMemory_entries P
    (memoryWorkingCap.getD Bob.defaultChildWorkingCap) h.keyed h.holds
  obtain ⟨eoa, heoa⟩ := Option.isSome_iff_exists.mp h.eoa
  have hfalse :
      ¬ P.numerics.lt parent.budgetUsdc (parent.childBudget P childBudgetUsdc) = true := by
    simp [hbudget]
  have hboot : (Bob.bootstrap P account clock
      { budgetUsdc := parent.childBudget P childBudgetUsdc
        constitutionRules := parent.constitutionRules ++ extraRules
        embeddingDim := parent.embeddingDim
        seed := parent.seed
        eoa := none
        memory := none
        constitutionHash := none
        solidityRules := [] }).isSome := bootstrap_isSome haccepted account clock
  obtain ⟨booted, hboot⟩ := Option.isSome_iff_exists.mp hboot
  have hpins : (pinRules P parent.embeddingDim parent.seed
      (fun i => clock ((parent.constitutionRules ++ extraRules).length + i)) extraRules
      { MemoryService.new P.numerics memory.dim memory.decayLambdas memory.seed with
        centroid := memory.centroid
        entries := entries }).isSome :=
    pinRules_isSome (fun r hr => haccepted.pinnable r (List.mem_append_right _ hr)) h.dim
  obtain ⟨childMemory, hpins⟩ := Option.isSome_iff_exists.mp hpins
  simp only [Bob.spawnChild, Bob.spawned, heoa, Option.bind_eq_bind, Option.bind_some,
    if_neg hfalse, hboot, hclone, hpins]
  rfl

end Spawn

theorem Agent.established {agent : Bob F E} (h : Agent P agent) :
    ∃ memory, Established P agent memory := by
  induction h with
  | bootstrap account clock heoa h =>
    obtain ⟨haccepted, sol, hash, es, centroid, hes, rfl⟩ := bootstrap_eq_some heoa h
    refine ⟨_, rfl, rfl, rfl, rfl, haccepted, fun m hm => ?_⟩
    rcases Dict.of_mem_update hm with hm | ⟨hm, -⟩
    · obtain ⟨e, -, rfl⟩ := List.mem_map.mp hm
      rfl
    · cases hm
  | @use c agent memory _ hmemory ih =>
    obtain ⟨memory', h⟩ := ih
    obtain rfl : memory = memory' := Option.some.inj (hmemory.symm.trans h.holds)
    obtain ⟨centroid, entries, hlive⟩ := live_eq P.numerics memory c
    refine ⟨_, h.eoa, rfl, ?_, ?_, h.accepted, ?_⟩
    · rw [hlive]
      exact h.dim
    · rw [lambdas_live]
      exact h.lambdas
    · exact forall_live c (fun _ _ _ _ _ _ _ => rfl)
        (fun now k e e' he hd => (decayed_eq_some hd).traceId.trans he) h.keyed
  | spawn account clock childBudgetUsdc extraRules memoryWorkingCap _ hchild ih =>
    obtain ⟨memory, h⟩ := ih
    obtain ⟨-, es, childMemory, hs⟩ := spawned_of_spawnChild h hchild
    obtain ⟨cloned, hcloned, hentries⟩ := hs.entries
    refine ⟨childMemory, hs.eoa, hs.holds, ?_, hs.lambdas.trans h.lambdas, hs.accepted, ?_⟩
    · rw [hs.dim, h.dim, hs.embeddingDim]
    · intro m hm
      rw [hentries] at hm
      rcases Dict.of_mem_update hm with hm | ⟨hm, -⟩
      · obtain ⟨e, -, rfl⟩ := List.mem_map.mp hm
        rfl
      · rw [hcloned, List.mem_append] at hm
        rcases hm with hm | hm
        · exact h.keyed m (List.mem_filter.mp hm).1
        · obtain ⟨e, -, rfl⟩ := List.mem_map.mp hm
          rfl

/-- The entries of a child are new, or those of its parent. -/
theorem Spawned.of_mem {parent child : Bob F E} {memory childMemory : MemoryService F E}
    {extraRules : List (Rule F)} {n : ℕ} {es : List (Entry F)} {m : Str × Entry F}
    (hs : Spawned P parent child memory extraRules n es childMemory)
    (hm : m ∈ childMemory.entries.items) : m.2 ∈ es ∨ m.2 ∈ memory.entries.values := by
  obtain ⟨cloned, hcloned, hentries⟩ := hs.entries
  rw [hentries] at hm
  rcases Dict.of_mem_update hm with hm | ⟨hm, -⟩
  · obtain ⟨e, he, rfl⟩ := List.mem_map.mp hm
    exact .inl he
  · right
    rw [hcloned, List.mem_append] at hm
    rcases hm with hm | hm
    · exact List.mem_map_of_mem (List.mem_filter.mp hm).1
    · obtain ⟨e, he, rfl⟩ := List.mem_map.mp hm
      exact (mem_working.mp (List.mem_of_mem_take he)).1

theorem pins_of_mem {rules : List (Rule F)} {es : List (Entry F)}
    (h : List.Forall₂ (Pins P) rules es) {e : Entry F} (he : e ∈ es) : ∃ r ∈ rules, Pins P r e := by
  induction h with
  | nil => cases he
  | @cons r e' rules es hr _ ih =>
    rcases List.mem_cons.mp he with rfl | he
    · exact ⟨r, List.mem_cons_self, hr⟩
    · obtain ⟨r', hr', hpins⟩ := ih he
      exact ⟨r', List.mem_cons_of_mem _ hr', hpins⟩

/-- What holds of new entries, and of decayed ones if it did before, holds in every agent. -/
theorem Agent.forall_entries {p : Entry F → Prop}
    (hnew : ∀ (memory : MemoryService F E) now traceId vec kind pinned payload, kind ∈ validKinds →
      p (memory.newEntry P.numerics (.finite now) traceId vec kind pinned payload))
    (hdecayed : ∀ memory : MemoryService F E, memory.decayLambdas = defaultLambdas P.numerics →
      ∀ now e e', p e → memory.decayed P.numerics (.finite now) e = some e' → p e')
    {agent : Bob F E} (h : Agent P agent) {memory : MemoryService F E}
    (hmemory : agent.memory = some memory) : ∀ m ∈ memory.entries.items, p m.2 := by
  have hpins {r : Rule F} {e : Entry F} (he : Pins P r e) : p e := by
    cases he
    exact hnew _ _ _ _ _ _ _ mem_pinned
  induction h generalizing memory with
  | bootstrap account clock heoa h =>
    obtain ⟨-, sol, hash, es, centroid, hes, rfl⟩ := bootstrap_eq_some heoa h
    cases hmemory
    intro m hm
    rcases Dict.of_mem_update hm with hm | ⟨hm, -⟩
    · obtain ⟨e, he, rfl⟩ := List.mem_map.mp hm
      obtain ⟨r, -, hr⟩ := pins_of_mem hes he
      exact hpins hr
    · cases hm
  | @use c agent old hagent hold ih =>
    cases hmemory
    obtain ⟨memory, hestablished⟩ := hagent.established
    obtain rfl : old = memory := Option.some.inj (hold.symm.trans hestablished.holds)
    exact forall_live c (fun now traceId vec kind pinned payload hkind => hnew _ _ _ _ _ _ _ hkind)
      (fun now k e e' he hd => hdecayed old hestablished.lambdas now e e' he hd) (ih hold)
  | spawn account clock childBudgetUsdc extraRules memoryWorkingCap hparent hchild ih =>
    obtain ⟨old, hestablished⟩ := hparent.established
    obtain ⟨-, es, childMemory, hs⟩ := spawned_of_spawnChild hestablished hchild
    obtain rfl : memory = childMemory := Option.some.inj (hmemory.symm.trans hs.holds)
    intro m hm
    rcases hs.of_mem hm with he | he
    · obtain ⟨r, -, hr⟩ := pins_of_mem hs.pins he
      exact hpins hr
    · obtain ⟨m', hm', heq⟩ := List.mem_map.mp he
      rw [← heq]
      exact ih hestablished.holds m' hm'

end Agents
end Arcane
