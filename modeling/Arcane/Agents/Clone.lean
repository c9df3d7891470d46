import Arcane.Agents.Pins
import Arcane.Lib.SortKey
import Arcane.Memory.Lookup

/-!
# What a child inherits

* `Numerics.Ordered`, `Numerics.ByRow`: what is used of Python's floating point numbers and of
  numpy.
* `Inherits`: the entries of a child, its root and its scores are those of its parent.
* `spawnChild_inherits`: a child that is given no rules of its own inherits.
-/

namespace Arcane

open Text

namespace Memory

variable {F E : Type} (N : Numerics F E)

/-- From 0.0 to 1.0. -/
def Numerics.Unit (x : Double F) : Prop := N.le (N.quot 0 1) x = true ∧ N.le x (N.quot 1 1) = true

/-- The order of the numbers, and the operations that decay makes on them. Only `nan` is not in the
order. -/
structure Numerics.Ordered : Prop where
  number_of_le : ∀ x y, N.le x y = true → N.le x x = true ∧ N.le y y = true
  le_trans : ∀ x y z, N.le x y = true → N.le y z = true → N.le x z = true
  le_total : ∀ x y, N.le x x = true → N.le y y = true → N.le x y = true ∨ N.le y x = true
  le_finite : ∀ x, N.le (.finite x) (.finite x) = true
  lt_iff : ∀ x y, N.lt x y = true ↔ N.le x y = true ∧ ¬ N.le y x = true
  neg_le : ∀ x y, N.le (N.neg x) (N.neg y) = N.le y x
  /-- Quotients of small integers are finite, and positive ones do not vanish. -/
  zero : ∃ x, N.quot 0 1 = .finite x
  quot_pos : ∀ a b, 0 < a → a < 2 ^ 53 → 0 < b → b < 2 ^ 53 →
    ∃ x, N.quot a b = .finite x ∧ N.lt (N.quot 0 1) (.finite x) = true
  mul_unit : ∀ x y, N.Unit x → N.Unit y → N.Unit (N.mul x y)
  mul_neg : ∀ x y, N.lt (N.quot 0 1) (.finite x) = true → N.le (N.quot 0 1) y = true →
    N.le (N.mul (N.neg (.finite x)) y) (N.quot 0 1) = true
  exp_neg : ∀ x, N.le x (N.quot 0 1) = true → ∃ y, N.exp x = some y ∧ N.Unit y

theorem Numerics.Ordered.lt_eq {N : Numerics F E} (hN : N.Ordered) (x y : Double F) :
    N.lt x y = (N.le x y && !N.le y x) := by
  rw [Bool.eq_iff_iff, hN.lt_iff]
  simp

/-- The scan scores each row by itself. -/
def Numerics.ByRow : Prop := ∃ score : List E → Bytes × Double F × Double F → Double F,
  ∀ rotated rows, N.scan rotated rows = rows.map (score rotated)

namespace MemoryService

variable (s : MemoryService F E)

/-- The score that a query gives to an entry, whether or not it is among the best. -/
def score (vec : List E) (traceId : Str) : Option (Double F) :=
  (s.encode N vec).bind fun (s, c) =>
    let rows := s.entries.values.map fun e => (e.bitsPacked, e.l1, e.weight)
    ((s.entries.keys.zip (N.scan c.rotated rows)).find? fun x => x.1 = traceId).map (·.2)

/-- The state after queries. -/
def queried (asked : List (List E × ℤ)) : MemoryService F E :=
  asked.foldl (fun s q => (s.query N q.1 q.2).1) s

variable {N s} {vec : List E} {traceId : Str}

/-- Queries arm the centroid. -/
theorem queried_eq (asked : List (List E × ℤ)) : ∃ centroid,
    s.queried N asked = { s with centroid := centroid } ∧
      (s.queried N asked).centre N = s.centre N := by
  induction asked generalizing s with
  | nil => exact ⟨s.centroid, rfl, rfl⟩
  | cons q asked ih =>
    obtain ⟨centroid, heq, hcentre⟩ := ih (s := (s.query N q.1 q.2).1)
    rcases query_state N s q.1 q.2 with h | h
    · rw [h] at heq hcentre
      exact ⟨centroid, by rw [queried, List.foldl_cons, h]; exact heq,
        by rw [queried, List.foldl_cons, h]; exact hcentre⟩
    · rw [h] at heq hcentre
      exact ⟨centroid, by rw [queried, List.foldl_cons, h]; exact heq,
        by rw [queried, List.foldl_cons, h]; exact hcentre⟩

theorem nodup_zip_scan (rotated : List E) : (Assoc.keys (s.entries.keys.zip
    (N.scan rotated (s.entries.values.map fun e => (e.bitsPacked, e.l1, e.weight))))).Nodup := by
  have hlength : s.entries.keys.length ≤ (N.scan rotated
      (s.entries.values.map fun e => (e.bitsPacked, e.l1, e.weight))).length := by
    simp [N.length_scan, Dict.keys, Dict.values, Assoc.keys]
  rw [Assoc.keys, List.map_fst_zip hlength]
  exact s.entries.nodup

/-- What a query lists has its score. -/
theorem score_of_query {k : ℤ} {results : List (Str × Double F)}
    (h : (s.query N vec k).2 = some results) {r : Str × Double F} (hr : r ∈ results) :
    s.score N vec r.1 = some r.2 := by
  unfold query at h
  split at h
  · cases h
    cases hr
  · cases hencode : s.encode N vec with
    | none =>
      rw [hencode] at h
      cases h
    | some p =>
      rw [hencode] at h
      obtain ⟨order, -, rfl⟩ := Option.map_eq_some_iff.mp h
      obtain ⟨j, -, hj⟩ := List.mem_filterMap.mp hr
      obtain ⟨tid, htid, hj⟩ := Option.bind_eq_some_iff.mp hj
      obtain ⟨x, hx, rfl⟩ := Option.map_eq_some_iff.mp hj
      have hmem : (tid, x) ∈ p.1.entries.keys.zip (N.scan p.2.rotated
          (p.1.entries.values.map fun e => (e.bitsPacked, e.l1, e.weight))) :=
        List.mem_of_getElem? (List.getElem?_zip_eq_some.mpr ⟨htid, hx⟩)
      rw [score, hencode, Option.bind_some]
      exact Dict.mem_items (d := ⟨_, nodup_zip_scan p.2.rotated⟩).mpr hmem

/-- The score is a function of the entry. -/
theorem score_eq_map {rowScore : List E → Bytes × Double F × Double F → Double F}
    (hscan : ∀ rotated rows, N.scan rotated rows = rows.map (rowScore rotated)) :
    s.score N vec traceId = if vec.length ≠ s.dim then none
      else (s.entries.get? traceId).map fun e =>
        rowScore (code N s.dim s.seed (s.centre N) vec).rotated (e.bitsPacked, e.l1, e.weight) := by
  rw [score, encode]
  split
  · rfl
  · have hzip : s.entries.keys.zip (N.scan (code N s.dim s.seed (s.centre N) vec).rotated
        (s.entries.values.map fun e => (e.bitsPacked, e.l1, e.weight))) =
        (s.entries.map fun e => rowScore (code N s.dim s.seed (s.centre N) vec).rotated
          (e.bitsPacked, e.l1, e.weight)).items := by
      rw [hscan, Dict.keys, Dict.values, Assoc.keys, List.map_map, List.map_map, List.zip_map',
        Dict.items_map]
      rfl
    rw [Option.bind_some, ← Dict.get?_map, Dict.get?, ← hzip]
    rfl

theorem mem_keys_of_score (hscan : N.ByRow) {x : Double F} (h : s.score N vec traceId = some x) :
    traceId ∈ s.entries.keys := by
  obtain ⟨rowScore, hscan⟩ := hscan
  rw [score_eq_map hscan] at h
  split at h
  · cases h
  · obtain ⟨e, he, -⟩ := Option.map_eq_some_iff.mp h
    exact Assoc.mem_keys.mpr ⟨e, Dict.mem_items.mp he⟩

/-- Services that encode alike score an entry that both have alike. -/
theorem score_congr {s' : MemoryService F E} (hscan : N.ByRow) (hdim : s'.dim = s.dim)
    (hseed : s'.seed = s.seed) (hcentre : s'.centre N = s.centre N)
    (hget : s'.entries.get? traceId = s.entries.get? traceId) :
    s'.score N vec traceId = s.score N vec traceId := by
  obtain ⟨rowScore, hscan⟩ := hscan
  rw [score_eq_map hscan, score_eq_map hscan, hdim, hseed, hcentre, hget]

theorem score_queried (hscan : N.ByRow) (asked : List (List E × ℤ)) :
    (s.queried N asked).score N vec traceId = s.score N vec traceId := by
  obtain ⟨centroid, heq, hcentre⟩ := queried_eq (N := N) (s := s) asked
  apply score_congr hscan _ _ hcentre
  · rw [heq]
  · rw [heq]
  · rw [heq]

/-! ## Weights -/

/-- A weight from 0.0 to 1.0 and a time; what is not pinned has a rate of decay. -/
structure Weighed (N : Numerics F E) (e : Entry F) : Prop where
  weight : N.Unit e.weight
  lastDecayTs : ∃ t, e.lastDecayTs = .finite t
  kind : e.pinned = false → e.kind ∈ [lit "working", lit "episodic", lit "semantic"]

section Weights

variable (hN : N.Ordered)

include hN

theorem unit_one : N.Unit (N.quot 1 1) := by
  obtain ⟨x, hx, hlt⟩ := hN.quot_pos 1 1 (by decide) (by decide) (by decide) (by decide)
  rw [hN.lt_iff, ← hx] at hlt
  exact ⟨hlt.1, (hN.number_of_le _ _ hlt.1).2⟩

/-- The rates of decay are positive. -/
theorem rate_pos {kind : Str} (h : kind ∈ [lit "working", lit "episodic", lit "semantic"]) :
    ∃ lam, (defaultLambdas N).get? kind = some (.finite lam) ∧
      N.lt (N.quot 0 1) (.finite lam) = true := by
  have hget {v : Double F} (hmem : (kind, v) ∈ (defaultLambdas N).items) :
      (defaultLambdas N).get? kind = some v := Dict.mem_items.mpr hmem
  have hpos (b : ℕ) (hb : 0 < b) (hlt : b < 2 ^ 53) :=
    hN.quot_pos 1 b (by decide) (by decide) hb hlt
  rw [items_defaultLambdas] at hget
  simp only [List.mem_cons, List.not_mem_nil, or_false] at h
  rcases h with rfl | rfl | rfl
  · obtain ⟨lam, hlam, hlt⟩ := hpos 86400 (by decide) (by decide)
    exact ⟨lam, hget (by rw [← hlam]; simp), hlt⟩
  · obtain ⟨lam, hlam, hlt⟩ := hpos (7 * 86400) (by decide) (by decide)
    exact ⟨lam, hget (by rw [← hlam]; simp), hlt⟩
  · obtain ⟨lam, hlam, hlt⟩ := hpos (90 * 86400) (by decide) (by decide)
    exact ⟨lam, hget (by rw [← hlam]; simp), hlt⟩

theorem weighed_newEntry (now : F) (traceId : Str) (vec : List E) {kind : Str} (pinned : Bool)
    (payload : Option (Payload F)) (hkind : kind ∈ validKinds) :
    Weighed N (s.newEntry N (.finite now) traceId vec kind pinned payload) where
  weight := unit_one hN
  lastDecayTs := ⟨now, rfl⟩
  kind := by
    intro h
    obtain ⟨hpinned, hother⟩ := Bool.or_eq_false_iff.mp h
    rw [newEntry, hpinned]
    simp only [validKinds, List.mem_cons, List.not_mem_nil, or_false] at hkind ⊢
    rcases hkind with h | h | h | h
    · exact .inl h
    · exact .inr (.inl h)
    · exact .inr (.inr h)
    · exact absurd h (of_decide_eq_false hother)

/-- Decay keeps a weight between 0.0 and 1.0. -/
theorem Weighed.decayed (hs : s.decayLambdas = defaultLambdas N) {now : F} {e e' : Entry F}
    (he : Weighed N e) (h : s.decayed N (.finite now) e = some e') : Weighed N e' := by
  unfold MemoryService.decayed at h
  split at h
  · cases h
    exact ⟨he.weight, ⟨now, rfl⟩, he.kind⟩
  · next hpinned =>
    obtain ⟨lam, hlam, hpos⟩ := rate_pos hN (he.kind (Bool.eq_false_iff.mpr hpinned))
    obtain ⟨f, hf, rfl⟩ := Option.map_eq_some_iff.mp h
    refine ⟨hN.mul_unit _ _ he.weight ?_, ⟨now, rfl⟩, he.kind⟩
    rw [hs, hlam, Option.getD_some] at hf
    have hdt : N.le (N.quot 0 1) (if N.lt (N.quot 0 1) (N.sub (.finite now) e.lastDecayTs) = true
        then N.sub (.finite now) e.lastDecayTs else N.quot 0 1) = true := by
      split
      · next hlt => exact ((hN.lt_iff _ _).mp hlt).1
      · obtain ⟨z, hz⟩ := hN.zero
        rw [hz]
        exact hN.le_finite z
    obtain ⟨y, hy, hunit⟩ := hN.exp_neg _ (hN.mul_neg lam _ hpos hdt)
    obtain rfl : f = y := Option.some.inj (hf.symm.trans hy)
    exact hunit

end Weights

end MemoryService
end Memory

namespace Agents

open Evm Memory MemoryService

variable {F E : Type} {P : Platform F E}

theorem Agent.weighed (hN : P.numerics.Ordered) {agent : Bob F E} (h : Agent P agent)
    {memory : MemoryService F E} (hmemory : agent.memory = some memory) :
    ∀ m ∈ memory.entries.items, Weighed P.numerics m.2 :=
  h.forall_entries (fun _ now traceId vec _ pinned payload hkind =>
      weighed_newEntry hN now traceId vec pinned payload hkind)
    (fun _ hs _ _ _ he hd => he.decayed hN hs hd) hmemory

/-! ## The order of the working entries -/

section Order

variable (N : Numerics F E)

def Same (x y : Double F) : Prop := N.le x y = true ∧ N.le y x = true

/-- Weight descending, then time descending, then trace id ascending. -/
def Before (e e' : Entry F) : Prop :=
  N.lt e'.weight e.weight = true ∨ Same N e.weight e'.weight ∧
    (N.lt e'.lastDecayTs e.lastDecayTs = true ∨
      Same N e.lastDecayTs e'.lastDecayTs ∧ e.traceId < e'.traceId)

def byWeight (e e' : Entry F) : Prop := N.le e'.weight e.weight = true

def byTime (e e' : Entry F) : Prop := N.le e'.lastDecayTs e.lastDecayTs = true

def byTraceId (e e' : Entry F) : Prop := e.traceId ≤ e'.traceId

def sortOrder : Entry F → Entry F → Prop :=
  SortKey.thenBy (byWeight N) (SortKey.thenBy (byTime N) byTraceId)

variable {N} (hN : N.Ordered)

include hN

theorem totalOn_numbers :
    SortKey.TotalOn (fun x => N.le x x = true) fun x y : Double F => N.le y x = true where
  trans x y z _ _ _ hxy hyz := hN.le_trans z y x hyz hxy
  total x y hx hy := hN.le_total y x hy hx

theorem totalOn_sortOrder : SortKey.TotalOn (Weighed N) (sortOrder N) := by
  have hweight : SortKey.TotalOn (Weighed N) (byWeight N) :=
    (totalOn_numbers hN).comap fun e he => (hN.number_of_le _ _ he.weight.1).2
  have htime : SortKey.TotalOn (Weighed N) (byTime N) := by
    refine (totalOn_numbers hN).comap fun e he => ?_
    obtain ⟨t, ht⟩ := he.lastDecayTs
    rw [ht]
    exact hN.le_finite t
  have hid : SortKey.TotalOn (Weighed N) byTraceId :=
    (SortKey.totalOn_le (p := fun _ => True)).comap fun _ _ => trivial
  exact hweight.thenBy (htime.thenBy hid)

end Order

/-- The sort by keys is by that order. -/
theorem keyLt_iff (hN : P.numerics.Ordered) {e e' : Entry F} (he : Weighed P.numerics e)
    (he' : Weighed P.numerics e') :
    (!Bob.keyLt P e' e) = true ↔ sortOrder P.numerics e e' := by
  have hweight := hN.le_total _ _ (hN.number_of_le _ _ he.weight.1).2
    (hN.number_of_le _ _ he'.weight.1).2
  have htime : P.numerics.le e.lastDecayTs e'.lastDecayTs = true ∨
      P.numerics.le e'.lastDecayTs e.lastDecayTs = true := by
    obtain ⟨t, ht⟩ := he.lastDecayTs
    obtain ⟨t', ht'⟩ := he'.lastDecayTs
    rw [ht, ht']
    exact hN.le_total _ _ (hN.le_finite t) (hN.le_finite t')
  simp only [Bob.keyLt, hN.neg_le, hN.lt_eq, sortOrder, SortKey.thenBy, byWeight, byTime, byTraceId]
  cases hw : P.numerics.le e.weight e'.weight <;> cases hw' : P.numerics.le e'.weight e.weight <;>
    cases ht : P.numerics.le e.lastDecayTs e'.lastDecayTs <;>
    cases ht' : P.numerics.le e'.lastDecayTs e.lastDecayTs <;> simp_all

/-- Entries in order are one before the other, if their trace ids differ. -/
theorem before_of_sortOrder {N : Numerics F E} (hN : N.Ordered) {e e' : Entry F}
    (h : sortOrder N e e') (hne : e.traceId ≠ e'.traceId) : Before N e e' := by
  obtain ⟨hweight, hrest⟩ := h
  by_cases hsame : byWeight N e' e
  · obtain ⟨htime, hid⟩ := hrest hsame
    refine .inr ⟨⟨hsame, hweight⟩, ?_⟩
    by_cases hsame' : byTime N e' e
    · exact .inr ⟨⟨hsame', htime⟩, lt_of_le_of_ne (hid hsame') hne⟩
    · exact .inl ((hN.lt_iff _ _).mpr ⟨htime, hsame'⟩)
  · exact .inl ((hN.lt_iff _ _).mpr ⟨hweight, hsame⟩)

/-- A child takes the entries in order. -/
theorem pairwise_working (hN : P.numerics.Ordered) {memory : MemoryService F E}
    (hkeyed : ∀ m ∈ memory.entries.items, m.2.traceId = m.1)
    (hweighed : ∀ m ∈ memory.entries.items, Weighed P.numerics m.2) :
    (working P memory).Pairwise (Before P.numerics) := by
  have hmem : ∀ e ∈ memory.entries.values.filter fun e => !e.pinned, Weighed P.numerics e := by
    intro e he
    obtain ⟨m, hm, rfl⟩ := List.mem_map.mp (List.mem_filter.mp he).1
    exact hweighed m hm
  have hsorted : (working P memory).Pairwise (sortOrder P.numerics) :=
    (totalOn_sortOrder hN).pairwise_mergeSort (fun _ _ he he' => keyLt_iff hN he he') hmem
  have hids : (working P memory).Pairwise fun e e' => e.traceId ≠ e'.traceId := by
    have hnodup : (Assoc.keys (pinnedItems memory ++ (working P memory).map keyed)).Nodup :=
      ((items_perm hkeyed).map _).nodup_iff.mpr memory.entries.nodup
    rw [Assoc.keys_append, List.nodup_append'] at hnodup
    have hown := hnodup.2.1
    rw [Assoc.keys, List.map_map] at hown
    exact List.pairwise_map.mp hown
  exact (hsorted.and hids).imp fun h => before_of_sortOrder hN h.1 h.2

/-! ## The child -/

section Inherit

variable [Json.FloatText F]

/-- What a child has of the memory of its parent: all that is pinned and the first `n` other
entries, the root of what is pinned, and the scores of its entries under queries of both. -/
structure Inherits (N : Numerics F E) (n : ℕ) (memory childMemory : MemoryService F E) :
    Prop where
  entries : ∃ rest : List (Entry F),
    (rest.map keyed).Perm (memory.entries.items.filter fun m => !m.2.pinned) ∧
      rest.Pairwise (Before N) ∧
      childMemory.entries.items =
        memory.entries.items.filter (·.2.pinned) ++ (rest.take n).map keyed
  root : childMemory.pinnedMerkleRoot = memory.pinnedMerkleRoot
  scores : ∀ asked asked' vec, ∀ traceId ∈ childMemory.entries.keys,
    (childMemory.queried N asked).score N vec traceId =
      (memory.queried N asked').score N vec traceId
  answers : ∀ asked asked' vec k k' results results',
    ((childMemory.queried N asked).query N vec k).2 = some results →
    ((memory.queried N asked').query N vec k').2 = some results' →
    ∀ r ∈ results, ∀ r' ∈ results', r.1 = r'.1 → r.2 = r'.2

theorem Spawned.inherits (hN : P.numerics.Ordered) (hscan : P.numerics.ByRow)
    {parent child : Bob F E} {memory childMemory : MemoryService F E} {n : ℕ} {es : List (Entry F)}
    (h : Agent P parent) (hestablished : Established P parent memory)
    (hs : Spawned P parent child memory [] n es childMemory) :
    Inherits P.numerics n memory childMemory := by
  obtain ⟨cloned, hcloned, hentries⟩ := hs.entries
  have hnil : es = [] := List.forall₂_nil_left_iff.mp hs.pins
  obtain rfl : childMemory.entries = cloned := by
    rw [hentries, hnil]
    rfl
  have hperm := items_perm (P := P) hestablished.keyed
  have hrest : ((working P memory).map keyed).Perm
      (memory.entries.items.filter fun m => !m.2.pinned) :=
    (List.perm_append_left_iff _).mp (hperm.trans (List.filter_append_perm _ _).symm)
  have hsub {m : Str × Entry F} (hm : m ∈ childMemory.entries.items) :
      m ∈ memory.entries.items := by
    rw [hcloned] at hm
    refine hperm.subset ?_
    rw [List.mem_append] at hm ⊢
    exact hm.imp_right fun hm => List.map_subset _ (List.take_subset n _) hm
  have hscores : ∀ asked asked' vec, ∀ traceId ∈ childMemory.entries.keys,
      (childMemory.queried P.numerics asked).score P.numerics vec traceId =
        (memory.queried P.numerics asked').score P.numerics vec traceId := by
    intro asked asked' vec traceId hid
    obtain ⟨e, he⟩ := Assoc.mem_keys.mp hid
    have hcentre : childMemory.centre P.numerics = memory.centre P.numerics := by
      rw [centre, centre, hs.centroid rfl, hs.dim]
    rw [score_queried hscan, score_queried hscan]
    apply score_congr hscan hs.dim hs.seed hcentre
    rw [Dict.mem_items.mpr he, Dict.mem_items.mpr (hsub he)]
  refine ⟨⟨working P memory, hrest, ?_, hcloned⟩, ?_, hscores, ?_⟩
  · exact pairwise_working hN hestablished.keyed (h.weighed hN hestablished.holds)
  · have hpinned : childMemory.entries.values.filter (·.pinned) =
        memory.entries.values.filter (·.pinned) := by
      have hown : ((pinnedItems memory).map (·.2)).filter (·.pinned) =
          (pinnedItems memory).map (·.2) := by
        rw [List.filter_map]
        exact congrArg _ (List.filter_eq_self.mpr fun m hm => (List.mem_filter.mp hm).2)
      have hother : ((((working P memory).take n).map keyed).map (·.2)).filter (·.pinned) = [] := by
        rw [List.filter_eq_nil_iff]
        intro e he
        obtain ⟨m, hm, rfl⟩ := List.mem_map.mp he
        obtain ⟨e, hmem, rfl⟩ := List.mem_map.mp hm
        exact Bool.eq_false_iff.mp (mem_working.mp (List.mem_of_mem_take hmem)).2
      rw [Dict.values, hcloned, List.map_append, List.filter_append, hown, hother, List.append_nil,
        Dict.values, List.filter_map]
      rfl
    rw [pinnedMerkleRoot, pinnedMerkleRoot, pinnedEntries, pinnedEntries, hpinned]
  · intro asked asked' vec k k' results results' hresults hresults' r hr r' hr' hid
    have hscore := score_of_query hresults hr
    have hscore' := score_of_query hresults' hr'
    have hmem : r.1 ∈ childMemory.entries.keys := by
      rw [score_queried hscan] at hscore
      exact mem_keys_of_score hscan hscore
    rw [hscores asked asked' vec r.1 hmem, hid, hscore'] at hscore
    exact (Option.some.inj hscore).symm

/-- A child that is given no rules of its own has what was its parent's, unless its budget is above
that of its parent, and the parent keeps all. -/
theorem spawnChild_inherits (P : Platform F E) (hN : P.numerics.Ordered)
    (hscan : P.numerics.ByRow) (parent : Bob F E) (h : Agent P parent) (account : Address)
    (clock : ℕ → F) (childBudgetUsdc : Option (Double F)) (memoryWorkingCap : Option ℕ) :
    (parent.spawnChild P account clock childBudgetUsdc [] (memoryWorkingCap.map Int.ofNat)).1 =
        parent ∧
      ((parent.spawnChild P account clock childBudgetUsdc []
        (memoryWorkingCap.map Int.ofNat)).2.isSome ↔
          P.numerics.lt parent.budgetUsdc (parent.childBudget P childBudgetUsdc) = false) ∧
      ∀ child, (parent.spawnChild P account clock childBudgetUsdc []
          (memoryWorkingCap.map Int.ofNat)).2 = some child →
        ∃ memory childMemory, parent.memory = some memory ∧ child.memory = some childMemory ∧
          Inherits P.numerics (memoryWorkingCap.getD 64) memory childMemory := by
  obtain ⟨memory, hestablished⟩ := h.established
  have hcap : workingCap (memoryWorkingCap.map Int.ofNat) = memoryWorkingCap.getD 64 := by
    cases memoryWorkingCap <;> rfl
  refine ⟨rfl, ⟨fun hsome => ?_, fun hbudget => ?_⟩, fun child hchild => ?_⟩
  · obtain ⟨child, hchild⟩ := Option.isSome_iff_exists.mp hsome
    exact (spawned_of_spawnChild hestablished hchild).1
  · apply spawnChild_isSome hestablished _ hbudget
    rw [List.append_nil]
    exact hestablished.accepted
  · obtain ⟨-, es, childMemory, hs⟩ := spawned_of_spawnChild hestablished hchild
    rw [hcap] at hs
    exact ⟨memory, childMemory, hestablished.holds, hs.holds, hs.inherits hN hscan h hestablished⟩

end Inherit

namespace Demo

open MemoryService.Demo

def rank : Flt → ℕ
  | .minusOne => 0
  | .zero => 1
  | .one => 2

def negated : Flt → Flt
  | .minusOne => .one
  | .zero => .zero
  | .one => .minusOne

def product : Flt → Flt → Flt
  | .minusOne, y => negated y
  | .zero, _ => .zero
  | .one, y => y

/-- The numbers -1.0, 0.0 and 1.0 in order, and the score of a code of one bit. -/
def weighing : Platform Flt Flt := { platform with
  numerics := { numerics with
    mul := Numerics.onFinite product
    neg := Numerics.onFinite (fun _ => negated) (.finite .zero)
    lt := Numerics.ofFinite fun x y => decide (rank x < rank y)
    le := Numerics.ofFinite fun x y => decide (rank x ≤ rank y)
    scan := fun q rows => rows.map fun row =>
      .finite (if row.1 = [0x80] then q.headD .zero else negated (q.headD .zero))
    length_scan := fun _ _ => List.length_map _ } }

theorem weighing_byRow : weighing.numerics.ByRow := ⟨_, fun _ _ => rfl⟩

theorem unit_cases {x : Double Flt} (h : weighing.numerics.Unit x) :
    x = .finite .zero ∨ x = .finite .one := by
  rcases x with (_ | _ | _) | _ | _ | _
  · exact absurd h.1 (by decide)
  · exact .inl rfl
  · exact .inr rfl
  · exact absurd h.1 (by decide)
  · exact absurd h.1 (by decide)
  · exact absurd h.1 (by decide)

theorem le_iff {x y : Double Flt} : weighing.numerics.le x y = true ↔
    ∃ a b, x = .finite a ∧ y = .finite b ∧ rank a ≤ rank b := by
  constructor
  · intro h
    rcases x with a | _ | _ | _
    · rcases y with b | _ | _ | _
      · exact ⟨a, b, rfl, rfl, of_decide_eq_true h⟩
      · cases h
      · cases h
      · cases h
    · cases h
    · cases h
    · cases h
  · rintro ⟨a, b, rfl, rfl, h⟩
    exact decide_eq_true h

theorem weighing_ordered : weighing.numerics.Ordered where
  number_of_le := by
    intro x y h
    obtain ⟨a, b, rfl, rfl, -⟩ := le_iff.mp h
    exact ⟨le_iff.mpr ⟨a, a, rfl, rfl, le_rfl⟩, le_iff.mpr ⟨b, b, rfl, rfl, le_rfl⟩⟩
  le_trans := by
    intro x y z hxy hyz
    obtain ⟨a, b, rfl, rfl, hab⟩ := le_iff.mp hxy
    obtain ⟨b', c, hb, rfl, hbc⟩ := le_iff.mp hyz
    cases hb
    exact le_iff.mpr ⟨a, c, rfl, rfl, hab.trans hbc⟩
  le_total := by
    intro x y hx hy
    obtain ⟨a, -, rfl, -, -⟩ := le_iff.mp hx
    obtain ⟨b, -, rfl, -, -⟩ := le_iff.mp hy
    exact (le_total (rank a) (rank b)).imp (fun h => le_iff.mpr ⟨a, b, rfl, rfl, h⟩)
      fun h => le_iff.mpr ⟨b, a, rfl, rfl, h⟩
  le_finite x := le_iff.mpr ⟨x, x, rfl, rfl, le_rfl⟩
  lt_iff x y := by
    rcases x with (_ | _ | _) | _ | _ | _ <;> rcases y with (_ | _ | _) | _ | _ | _ <;> decide
  neg_le x y := by
    rcases x with (_ | _ | _) | _ | _ | _ <;> rcases y with (_ | _ | _) | _ | _ | _ <;> rfl
  zero := ⟨.zero, rfl⟩
  quot_pos a b ha _ _ _ := by
    refine ⟨.one, ?_, rfl⟩
    show Double.finite (if a = 0 then Flt.zero else .one) = .finite .one
    rw [if_neg ha.ne']
  mul_unit x y hx hy := by
    rcases unit_cases hx with rfl | rfl
    · rcases unit_cases hy with rfl | rfl <;> exact ⟨rfl, rfl⟩
    · rcases unit_cases hy with rfl | rfl <;> exact ⟨rfl, rfl⟩
  mul_neg x y hx hy := by
    obtain ⟨-, b, -, rfl, -⟩ := le_iff.mp hy
    cases x with
    | minusOne => exact absurd hx (by decide)
    | zero => exact absurd hx (by decide)
    | one =>
      cases b with
      | minusOne => exact absurd hy (by decide)
      | zero => rfl
      | one => rfl
  exp_neg x _ := ⟨.finite .one, rfl, rfl, rfl⟩

def calls : List (Live Flt Flt) :=
  [.add .zero (lit "t") [.minusOne] (lit "working") false none,
    .add .zero (lit "u") [.one] (lit "working") false none]

theorem agent_lives {agent : Bob Flt Flt} {memory : MemoryService Flt Flt}
    (h : Agent weighing agent) (hmemory : agent.memory = some memory)
    (cs : List (Live Flt Flt)) :
    Agent weighing { agent with memory := some (lives weighing.numerics memory cs) } := by
  induction cs using List.reverseRecOn with
  | nil =>
    rw [lives, List.foldl_nil, ← hmemory]
    exact h
  | append_singleton cs c ih =>
    rw [lives_concat]
    exact @Agent.use _ _ weighing c
      { agent with memory := some (lives weighing.numerics memory cs) } _ ih rfl

/-- A child that takes one of two working entries. -/
theorem working_inherited : ∃ parent child memory childMemory, Agent weighing parent ∧
    (parent.spawnChild weighing 2 (fun _ => Flt.zero) (some (.finite .minusOne)) []
      (some 1)).2 = some child ∧
    parent.memory = some (lives weighing.numerics memory calls) ∧
    child.memory = some childMemory ∧
    Inherits weighing.numerics 1 (lives weighing.numerics memory calls) childMemory := by
  have haccepted : Accepted weighing (bob extra).constitutionRules :=
    accepted_of_isSome (by decide +kernel)
  obtain ⟨agent, hagent⟩ := Option.isSome_iff_exists.mp
    (bootstrap_isSome haccepted 1 fun _ => Flt.zero)
  have hbooted : Agent weighing agent := .bootstrap 1 _ rfl hagent
  obtain ⟨memory, hestablished⟩ := hbooted.established
  have hparent := agent_lives hbooted hestablished.holds calls
  obtain ⟨-, hsome, hinherits⟩ := spawnChild_inherits weighing weighing_ordered weighing_byRow _
    hparent 2 (fun _ => Flt.zero) (some (.finite .minusOne)) (some 1)
  have hbudget : agent.budgetUsdc = .finite .one := by
    obtain ⟨-, sol, hash, es, centroid, -, rfl⟩ := bootstrap_eq_some rfl hagent
    rfl
  obtain ⟨child, hchild⟩ := Option.isSome_iff_exists.mp (hsome.mpr (by
    show weighing.numerics.lt agent.budgetUsdc (.finite .minusOne) = false
    rw [hbudget]
    rfl))
  obtain ⟨memory', childMemory, hmemory, hchildMemory, h⟩ := hinherits child hchild
  cases hmemory
  exact ⟨_, child, memory, childMemory, hparent, hchild, rfl, hchildMemory, h⟩

end Demo

end Agents
end Arcane
