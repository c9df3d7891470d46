import Arcane.Lib.Run
import Arcane.Memory.Archive

/-!
# Operation sequences on a memory service

* `Step`: one operation, with the state that it leaves whether or not it raises.
* `wellFormed`: what holds of the entries of every service.
* `written`: the code and the payload of an entry are those of the latest `add` of its trace id.
-/

namespace Arcane
namespace Memory

open Text Trace

/-- The operations; `saveLoad` goes on with the service that is loaded from the saved archive. -/
inductive Op (F E : Type) where
  | setCentroid (vec : Option (List E))
  | add (now : Double F) (traceId : Str) (vec : List E) (kind : Str) (pinned : Bool)
      (payload : Option (Payload F))
  | query (vec : List E) (k : ℤ)
  | decayStep (now : Double F)
  | saveLoad

/-- A payload is a Python dictionary, and so are those inside it. -/
def Op.IsDict {F E : Type} : Op F E → Prop
  | .add _ _ _ _ _ (some payload) => Json.Keyed (.obj payload)
  | _ => True

/-- What an accepted `add` writes. -/
structure Write (F E : Type) where
  traceId : Str
  vec : List E
  payload : Payload F
  pinned : Bool

/-- What an operation writes in a service of dimension `dim`. -/
def Op.write {F E : Type} (dim : ℕ) : Op F E → Option (Write F E)
  | .add _ traceId vec kind pinned payload =>
    if kind ∈ validKinds ∧ vec.length = dim then
      some ⟨traceId, vec, payload.getD [], pinned || kind = lit "pinned"⟩
    else none
  | _ => none

namespace MemoryService

variable {F E : Type} (N : Numerics F E)

/-- The state after an operation. -/
def step [Json.FloatText F] (s : MemoryService F E) : Op F E → MemoryService F E
  | .setCentroid vec => (s.setCentroid vec).getD s
  | .add now traceId vec kind pinned payload =>
    (s.add N now traceId vec kind pinned payload).getD s
  | .query vec k => (s.query N vec k).1
  | .decayStep now => (s.decayStep N now).1
  | .saveLoad => ((s.save N).bind (load N)).getD s

def Step [Json.FloatText F] (s : MemoryService F E) (op : Op F E) (s' : MemoryService F E) : Prop :=
  op.IsDict ∧ s' = s.step N op

variable {N} {s s' : MemoryService F E} {op : Op F E}

/-- The entry is what `w` writes. -/
structure Written (N : Numerics F E) (dim seed : ℕ) (c : List E) (w : Write F E) (e : Entry F) :
    Prop where
  traceId : e.traceId = w.traceId
  bitsPacked : e.bitsPacked = (code N dim seed c w.vec).bitsPacked
  payload : e.payload = w.payload
  pinned : e.pinned = w.pinned

/-- Equal but for the scalars that no root depends on. -/
structure Kept (e e' : Entry F) : Prop where
  traceId : e'.traceId = e.traceId
  bitsPacked : e'.bitsPacked = e.bitsPacked
  payload : e'.payload = e.payload
  pinned : e'.pinned = e.pinned

theorem Kept.refl (e : Entry F) : Kept e e := ⟨rfl, rfl, rfl, rfl⟩

/-- What an operation can do to the entries of a service. -/
inductive Effect (N : Numerics F E) (s : MemoryService F E) (op : Op F E)
    (s' : MemoryService F E) : Prop where
  /-- The entry of one trace id is written. -/
  | write (w : Write F E) (e : Entry F) : op.write s.dim = some w →
    Written N s.dim s.seed (s.centre N) w e → s'.entries = s.entries.set w.traceId e →
    Effect N s op s'
  /-- No entry is written, and at most entries that are not pinned are dropped. -/
  | keep : op.write s.dim = none →
    (∀ m ∈ s'.entries.items, ∃ e, (m.1, e) ∈ s.entries.items ∧ Kept e m.2) →
    (∀ m ∈ s.entries.items, m.2.pinned → ∃ e, (m.1, e) ∈ s'.entries.items ∧ Kept m.2 e) →
    Effect N s op s'

theorem encode_eq_some {vec : List E} {r : MemoryService F E × Code F E}
    (h : s.encode N vec = some r) :
    vec.length = s.dim ∧ r = (s.ensureCentroid N, code N s.dim s.seed (s.centre N) vec) := by
  unfold encode at h
  split at h
  · cases h
  · next hlen => exact ⟨not_not.mp hlen, (Option.some.inj h).symm⟩

theorem add_eq_some {now : Double F} {traceId : Str} {vec : List E} {kind : Str} {pinned : Bool}
    {payload : Option (Payload F)} (h : s.add N now traceId vec kind pinned payload = some s') :
    kind ∈ validKinds ∧ vec.length = s.dim ∧ ∃ e : Entry F,
      s' = { s.ensureCentroid N with entries := s.entries.set traceId e } ∧
      e.traceId = traceId ∧ e.bitsPacked = (code N s.dim s.seed (s.centre N) vec).bitsPacked ∧
      e.payload = payload.getD [] ∧ e.pinned = (pinned || kind = lit "pinned") := by
  unfold add at h
  split at h
  · cases h
  · next hk =>
    obtain ⟨r, hr, rfl⟩ := Option.map_eq_some_iff.mp h
    obtain ⟨hlen, rfl⟩ := encode_eq_some hr
    exact ⟨not_not.mp hk, hlen, _, rfl, rfl, rfl, rfl, rfl⟩

theorem add_eq_none {now : Double F} {traceId : Str} {vec : List E} {kind : Str} {pinned : Bool}
    {payload : Option (Payload F)} (h : s.add N now traceId vec kind pinned payload = none) :
    ¬ (kind ∈ validKinds ∧ vec.length = s.dim) := by
  rintro ⟨hk, hlen⟩
  simp [add, hk, encode, hlen] at h

/-- No entry is touched. -/
theorem Effect.same (hw : op.write s.dim = none) (h : s'.entries = s.entries) :
    Effect N s op s' := by
  apply Effect.keep hw
  · intro m hm
    exact ⟨m.2, h ▸ hm, .refl _⟩
  · intro m hm _
    exact ⟨m.2, by rwa [h], .refl _⟩

theorem entries_setCentroid (vec : Option (List E)) :
    ((s.setCentroid vec).getD s).entries = s.entries := by
  unfold setCentroid
  split
  · rfl
  · split
    · rfl
    · split <;> rfl

theorem entries_query (vec : List E) (k : ℤ) : (s.query N vec k).1.entries = s.entries := by
  unfold query
  split
  · rfl
  · split
    · rfl
    · next h =>
      obtain ⟨-, hr⟩ := encode_eq_some h
      rw [Prod.mk.injEq] at hr
      rw [hr.1]
      rfl

theorem dim_query (vec : List E) (k : ℤ) : (s.query N vec k).1.dim = s.dim := by
  unfold query
  split
  · rfl
  · split
    · rfl
    · next h =>
      obtain ⟨-, hr⟩ := encode_eq_some h
      rw [Prod.mk.injEq] at hr
      rw [hr.1]
      rfl

/-- A query of the right dimension for at least one result is answered. -/
theorem query_isSome {vec : List E} {k : ℤ} (hlen : vec.length = s.dim) (hk : 0 < k) :
    (s.query N vec k).2.isSome := by
  unfold query
  split
  · rfl
  · simp only [encode, ne_eq, hlen, not_true_eq_false, if_false, Option.isSome_map]
    exact N.top_isSome _ k hk

theorem dim_add {now : Double F} {traceId : Str} {vec : List E} {kind : Str} {pinned : Bool}
    {payload : Option (Payload F)} (h : s.add N now traceId vec kind pinned payload = some s') :
    s'.dim = s.dim := by
  obtain ⟨-, -, e, rfl, -⟩ := add_eq_some h
  rfl

theorem decayed_eq_some {now : Double F} {e e' : Entry F} (h : s.decayed N now e = some e') :
    Kept e e' := by
  unfold decayed at h
  split at h
  · cases h
    exact ⟨rfl, rfl, rfl, rfl⟩
  · obtain ⟨f, -, rfl⟩ := Option.map_eq_some_iff.mp h
    exact ⟨rfl, rfl, rfl, rfl⟩

theorem effect_decayStep (now : Double F) : Effect N s (.decayStep now) (s.decayStep N now).1 := by
  let r := s.entries.mapUntil (s.decayed N now)
  have hsub : ∀ m ∈ (s.decayStep N now).1.entries.items, m ∈ r.1.items := by
    intro m hm
    simp only [decayStep] at hm
    split at hm
    · exact hm
    · exact (List.mem_filter.mp hm).1
  have hpin : ∀ m ∈ r.1.items, m.2.pinned → m ∈ (s.decayStep N now).1.entries.items := by
    intro m hm hp
    simp only [decayStep]
    split
    · exact hm
    · exact List.mem_filter.mpr ⟨hm, by simp [kept, hp]⟩
  apply Effect.keep rfl
  · intro m hm
    rcases Assoc.of_mem_mapUntil (hsub m hm) with hm | ⟨e, he, hd⟩
    · exact ⟨m.2, hm, .refl _⟩
    · exact ⟨e, he, decayed_eq_some hd⟩
  · intro m hm hp
    rcases Assoc.mem_mapUntil (f := s.decayed N now) hm with hm | ⟨e, hd, he⟩
    · exact ⟨m.2, hpin m hm hp, .refl _⟩
    · have hk := decayed_eq_some hd
      exact ⟨e, hpin _ he (hk.pinned.trans hp), hk⟩

variable [Json.FloatText F]

theorem effect_saveLoad (hs : s.WellFormed) : Effect N s .saveLoad (s.step N .saveLoad) := by
  cases ha : s.save N with
  | none => exact .same rfl (by rw [step, ha]; rfl)
  | some a =>
    rw [step, ha, Option.bind_some, load_save N hs ha, Option.getD_some]
    apply Effect.keep rfl
    · intro m hm
      obtain ⟨x, hx, rfl⟩ := List.mem_map.mp hm
      exact ⟨x.2, hx, rfl, rfl, rfl, rfl⟩
    · intro m hm _
      exact ⟨rounded N m.2, List.mem_map_of_mem hm, rfl, rfl, rfl, rfl⟩

theorem effect (hs : s.WellFormed) (h : Step N s op s') : Effect N s op s' := by
  obtain ⟨-, rfl⟩ := h
  cases op with
  | setCentroid vec => exact .same rfl (entries_setCentroid vec)
  | query vec k => exact .same rfl (entries_query vec k)
  | decayStep now => exact effect_decayStep now
  | saveLoad => exact effect_saveLoad hs
  | add now traceId vec kind pinned payload =>
    cases ha : s.add N now traceId vec kind pinned payload with
    | none =>
      rw [step, ha]
      exact .same (if_neg (add_eq_none ha)) rfl
    | some s' =>
      obtain ⟨hk, hlen, e, rfl, h₁, h₂, h₃, h₄⟩ := add_eq_some ha
      rw [step, ha]
      exact .write _ e (if_pos ⟨hk, hlen⟩) ⟨h₁, h₂, h₃, h₄⟩ rfl

section WellFormed

omit [Json.FloatText F]

theorem length_packBits {signed : List Bool} {dim : ℕ} (h : signed.length = dim) :
    (packBits signed dim).length = (dim + 7) / 8 := by
  simp only [packBits, npPackbits, List.length_map, List.length_range]
  split
  · rw [List.length_append, List.length_replicate]
    omega
  · rw [h]

theorem length_unit {dim : ℕ} {c v : List E} (hc : c.length = dim) (hv : v.length = dim) :
    (unit N c v).1.length = dim := by
  simp only [unit]
  split
  · split <;> simp [zeros, hv]
  · simp [hc, hv]

theorem length_code {dim seed : ℕ} {c v : List E} (hc : c.length = dim) (hv : v.length = dim) :
    (code N dim seed c v).bitsPacked.length = (dim + 7) / 8 := by
  apply length_packBits
  show ((N.rotate dim seed (unit N c v).1).map N.nonneg).length = dim
  rw [List.length_map, N.length_rotate _ _ _ (length_unit hc hv)]

theorem WellFormed.length_centre (hs : s.WellFormed) : (s.centre N).length = s.dim := by
  cases hc : s.centroid with
  | none => simp [centre, hc, zeros]
  | some c => simp [centre, hc, hs.centroid c hc]

theorem wellFormed_new (dim : ℕ) (decayLambdas : Dict Str (Double F)) (seed : ℕ) :
    (new N dim decayLambdas seed).WellFormed where
  centroid := by simp [new]
  keyed := by simp [new]
  packed := by simp [new]
  payload := by simp [new]

/-- What no operation changes, and the length of a centroid. -/
structure Frame (s s' : MemoryService F E) : Prop where
  dim : s'.dim = s.dim
  seed : s'.seed = s.seed
  centroid : ∀ c, s'.centroid = some c → c.length = s.dim

theorem frame_encode (hs : s.WellFormed) : Frame s (s.ensureCentroid N) where
  dim := rfl
  seed := rfl
  centroid := by
    rintro c hc
    cases hc
    exact hs.length_centre

theorem frame_setCentroid (hs : s.WellFormed) (vec : Option (List E)) :
    Frame s ((s.setCentroid vec).getD s) := by
  unfold setCentroid
  split
  · exact ⟨rfl, rfl, hs.centroid⟩
  · split
    · exact ⟨rfl, rfl, by simp⟩
    · split
      · exact ⟨rfl, rfl, hs.centroid⟩
      · next hlen => exact ⟨rfl, rfl, fun c hc => by cases hc; exact not_not.mp hlen⟩

theorem frame_query (hs : s.WellFormed) (vec : List E) (k : ℤ) : Frame s (s.query N vec k).1 := by
  unfold query
  split
  · exact ⟨rfl, rfl, hs.centroid⟩
  · split
    · exact ⟨rfl, rfl, hs.centroid⟩
    · next h =>
      obtain ⟨-, hr⟩ := encode_eq_some h
      rw [Prod.mk.injEq] at hr
      rw [hr.1]
      exact frame_encode hs

theorem frame_add (hs : s.WellFormed) {now : Double F} {traceId : Str} {vec : List E} {kind : Str}
    {pinned : Bool} {payload : Option (Payload F)}
    (h : s.add N now traceId vec kind pinned payload = some s') : Frame s s' := by
  obtain ⟨-, -, e, rfl, -⟩ := add_eq_some h
  obtain ⟨h₁, h₂, h₃⟩ := frame_encode (N := N) hs
  exact ⟨h₁, h₂, h₃⟩

variable [Json.FloatText F]

theorem frame (hs : s.WellFormed) (h : Step N s op s') : Frame s s' := by
  obtain ⟨-, rfl⟩ := h
  cases op with
  | setCentroid vec => exact frame_setCentroid hs vec
  | query vec k => exact frame_query hs vec k
  | decayStep now => exact ⟨rfl, rfl, hs.centroid⟩
  | saveLoad =>
    cases ha : s.save N with
    | none =>
      rw [step, ha]
      exact ⟨rfl, rfl, hs.centroid⟩
    | some a =>
      rw [step, ha, Option.bind_some, load_save N hs ha]
      exact ⟨rfl, rfl, hs.centroid⟩
  | add now traceId vec kind pinned payload =>
    cases ha : s.add N now traceId vec kind pinned payload with
    | none =>
      rw [step, ha]
      exact ⟨rfl, rfl, hs.centroid⟩
    | some s' =>
      rw [step, ha]
      exact frame_add hs ha

omit [Json.FloatText F] in
/-- What is written has the length of the dimension, and its payload is a dictionary. -/
theorem write_valid {dim : ℕ} {w : Write F E} (hop : op.IsDict) (h : op.write dim = some w) :
    w.vec.length = dim ∧ Json.Keyed (.obj w.payload) := by
  cases op with
  | add now traceId vec kind pinned payload =>
    rw [Op.write] at h
    split at h
    · next hw =>
      cases h
      refine ⟨hw.2, ?_⟩
      cases payload with
      | none => exact ⟨List.nodup_nil, trivial⟩
      | some payload => exact hop
    · cases h
  | _ => cases h

theorem WellFormed.step (hs : s.WellFormed) (h : Step N s op s') : s'.WellFormed := by
  obtain ⟨hdim, -, hcentroid⟩ := frame hs h
  cases effect hs h with
  | write w e hw he hset =>
    obtain ⟨hlen, hdict⟩ := write_valid h.1 hw
    have hmem : ∀ m ∈ s'.entries.items, m = (w.traceId, e) ∨ m ∈ s.entries.items := by
      intro m hm
      rw [hset] at hm
      exact (Dict.mem_items_set.mp hm).imp_right And.left
    constructor
    · rw [hdim]
      exact hcentroid
    · intro m hm
      rcases hmem m hm with rfl | hm
      · exact he.traceId
      · exact hs.keyed m hm
    · intro m hm
      rw [hdim]
      rcases hmem m hm with rfl | hm
      · rw [he.bitsPacked, length_code hs.length_centre hlen]
      · exact hs.packed m hm
    · intro m hm
      rcases hmem m hm with rfl | hm
      · rw [he.payload]
        exact hdict
      · exact hs.payload m hm
  | keep _ hkeep _ =>
    constructor
    · rw [hdim]
      exact hcentroid
    · intro m hm
      obtain ⟨e, he, hk⟩ := hkeep m hm
      exact hk.traceId.trans (hs.keyed _ he)
    · intro m hm
      obtain ⟨e, he, hk⟩ := hkeep m hm
      rw [hdim, hk.bitsPacked]
      exact hs.packed _ he
    · intro m hm
      obtain ⟨e, he, hk⟩ := hkeep m hm
      rw [hk.payload]
      exact hs.payload _ he

end WellFormed

section Runs

variable {tr : List (Trace.Step (MemoryService F E) (Op F E))} {dim seed : ℕ}
  {decayLambdas : Dict Str (Double F)}

/-- Every service that the operations reach is well-formed, with the dimension and the seed that it
was made with. -/
theorem wellFormed (h : Run (Step N) (new N dim decayLambdas seed) tr s) :
    s.WellFormed ∧ s.dim = dim ∧ s.seed = seed := by
  apply h.invariant (I := fun s => s.WellFormed ∧ s.dim = dim ∧ s.seed = seed)
  · exact ⟨wellFormed_new dim decayLambdas seed, rfl, rfl⟩
  · rintro s op s' ⟨hs, rfl, rfl⟩ hst
    exact ⟨hs.step hst, (frame hs hst).dim, (frame hs hst).seed⟩

/-- The latest write of a trace id. -/
def lastWrite (dim : ℕ) (tr : List (Trace.Step (MemoryService F E) (Op F E))) (traceId : Str) :
    Option (Write F E) :=
  tr.reverse.findSome? fun st => (st.ev.write dim).filter fun w => w.traceId = traceId

/-- Every accepted `add` finds the centroid `c`. -/
def Centred (N : Numerics F E) (c : List E)
    (tr : List (Trace.Step (MemoryService F E) (Op F E))) : Prop :=
  ∀ st ∈ tr, (st.ev.write st.pre.dim).isSome → st.pre.centre N = c

omit [Json.FloatText F] in
theorem lastWrite_snoc (st : Trace.Step (MemoryService F E) (Op F E)) (traceId : Str) :
    lastWrite dim (tr ++ [st]) traceId =
      ((st.ev.write dim).filter fun w => w.traceId = traceId).or (lastWrite dim tr traceId) := by
  simp only [lastWrite, List.reverse_append, List.reverse_singleton, List.singleton_append,
    List.findSome?_cons]
  cases (st.ev.write dim).filter fun w => w.traceId = traceId <;> rfl

/-- The entry of a trace id is what was written last, encoded with the one centroid. -/
theorem written {c : List E} (h : Run (Step N) (new N dim decayLambdas seed) tr s)
    (hc : Centred N c tr) : ∀ m ∈ s.entries.items, ∃ w, lastWrite dim tr m.1 = some w ∧
      Written N dim seed c w m.2 := by
  induction h with
  | nil => simp [new]
  | @snoc tr s s' op hr hst ih =>
    obtain ⟨hs, hdim, hseed⟩ := wellFormed hr
    have hih := ih fun st hm => hc st (by simp [hm])
    intro m hm
    rw [lastWrite_snoc]
    cases effect hs hst with
    | write w e hw he hset =>
      rw [hdim] at hw
      rw [hset] at hm
      rcases Dict.mem_items_set.mp hm with rfl | ⟨hm, hne⟩
      · refine ⟨w, by simp [hw], ?_⟩
        have hcentre := hc ⟨s, op, s'⟩ (by simp) (by rw [hdim, hw]; rfl)
        rwa [hdim, hseed, show s.centre N = c from hcentre] at he
      · obtain ⟨w', hw', he'⟩ := hih m hm
        have hn : w.traceId ≠ m.1 := Ne.symm hne
        exact ⟨w', by simp [hw, Option.filter, hn, hw'], he'⟩
    | keep hw hkeep _ =>
      rw [hdim] at hw
      obtain ⟨e, he, hk⟩ := hkeep m hm
      obtain ⟨w, hw', hwr⟩ := hih _ he
      refine ⟨w, by simp [hw, hw'], ?_⟩
      exact ⟨hk.traceId.trans hwr.traceId, hk.bitsPacked.trans hwr.bitsPacked,
        hk.payload.trans hwr.payload, hk.pinned.trans hwr.pinned⟩

end Runs

end MemoryService
end Memory
end Arcane
