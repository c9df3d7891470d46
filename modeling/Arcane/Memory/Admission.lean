import Arcane.Memory.Loader
import Arcane.Memory.PinnedRoot

/-!
# What an archive has to be like

* `Admits`: `load` raises `ValueError`, or makes a service like those that `add` makes.
* `failure_build`: what `load` raises is the first failure of its conversions.
* `load_admits_iff`: `load` admits well-formed services only, if and only if no conversion fails
  before one that raises `ValueError`, and where none fails, the fields are consistent.
-/

namespace Arcane
namespace Memory
namespace Loader

open Text Python MemoryService Failure

variable {F E : Type} (R : Runtime F E)

namespace Content

variable (c : Content F E)

/-- The trace ids, as the entries have them. -/
def traceIds : List Str := ((toList (c.field "trace_ids")).toOption.getD []).map R.str

/-- The failures of the conversions of a row, in their order. -/
def rowFailures (i : ℕ) : List (Option Exception) :=
  [failure (item (c.field "kinds") i), failure (item (c.field "pinned") i),
    failure (item (c.field "payloads") i),
    failure (item (c.field "payloads") i >>= toPayload),
    failure (row c.bitsPacked i), failure (scalar c.l1s i), failure (scalar c.norms i),
    failure (scalar c.weights i), failure (scalar c.lastDecayTs i)]

/-- The failures of the conversions of the metadata and the rows, in their order. -/
def failures : List (Option Exception) :=
  let n := (c.traceIds R).length
  failure (toList (c.field "trace_ids")) :: failure (c.checkRows n) ::
    failure (toInt R (c.field "dim")) :: failure (toLambdas R (c.field "decay_lambdas")) ::
    failure (toInt R (c.field "seed")) ::
    failure (do R.buildRotation (← toInt R (c.field "dim")) (← toInt R (c.field "seed"))) ::
    failure (c.centroid R) :: (List.range n).map fun i => first (c.rowFailures i)

/-- The fields say of each other what those of a saved service do. -/
structure Consistent : Prop where
  packed : ∀ dim, toInt R (c.field "dim") = .ok dim → c.traceIds R ≠ [] →
    c.bitsPacked.shape.tail = [(dim.toNat + 7) / 8]
  kind : ∀ i < (c.traceIds R).length, ∀ kind, item (c.field "kinds") i = .ok kind →
    R.str kind ∈ validKinds
  pinned : ∀ i < (c.traceIds R).length, ∀ kind pinned, item (c.field "kinds") i = .ok kind →
    item (c.field "pinned") i = .ok pinned →
    (truthy R.isZero pinned = true ↔ R.str kind = lit "pinned")
  distinct : (c.traceIds R).Nodup
  centroid : ∀ dim a, toInt R (c.field "dim") = .ok dim → c.centroid R = .ok (some a) →
    a.shape = [dim.toNat]
  weight : ∀ i < (c.traceIds R).length, ∀ x, scalar c.weights i = .ok x →
    R.numerics.le (R.numerics.quot 0 1) (R.numerics.double x) = true ∧
      R.numerics.le (R.numerics.double x) (R.numerics.quot 1 1) = true

end Content

/-- The service is like those that `add` makes, and holds an entry for each trace id of the file. -/
structure Admitted (c : Content F E) (s : Loaded F E) : Prop where
  packed : ∀ m ∈ s.entries.items, m.2.bitsPacked.shape = [(s.dim + 7) / 8]
  kind : ∀ m ∈ s.entries.items, m.2.kind ∈ validKinds
  pinned : ∀ m ∈ s.entries.items, (m.2.pinned = true ↔ m.2.kind = lit "pinned")
  distinct : (c.traceIds R).Nodup
  centroid : ∀ a, s.centroid = some a → a.shape = [s.dim]
  weight : ∀ m ∈ s.entries.items, R.numerics.le (R.numerics.quot 0 1) m.2.weight = true ∧
    R.numerics.le m.2.weight (R.numerics.quot 1 1) = true

/-- `load` raises `ValueError`, or admits a well-formed service. -/
def Admits [Json.FloatText F] (z : Npz F E) : Prop :=
  load R z = .error .value ∨ ∃ c s, read R z = some c ∧ load R z = .ok s ∧ Admitted R c s

section Failures

variable {R} {c : Content F E}

theorem failure_entry (i : ℕ) (tid : Json F) :
    failure (c.entry R i tid) = first (c.rowFailures i) := by
  unfold Content.entry Content.rowFailures
  refine failure_bind fun kind _ => failure_bind fun pinned _ => failure_bind fun item hitem => ?_
  rw [hitem]
  refine failure_bind fun payload _ => failure_bind fun bits _ => failure_bind fun l1 _ =>
    failure_bind fun norm _ => failure_bind fun weight _ => failure_bind fun ts _ => ?_
  rfl

theorem failure_entries (ids : List (Json F)) :
    failure (ids.zipIdx.mapM fun t => c.entry R t.2 t.1) =
      first ((List.range ids.length).map fun i => first (c.rowFailures i)) := by
  have hmap : ids.zipIdx.map (fun t => failure (c.entry R t.2 t.1)) =
      (ids.zipIdx.map (·.2)).map fun i => first (c.rowFailures i) := by
    rw [List.map_map]
    exact List.map_congr_left fun t _ => failure_entry t.2 t.1
  rw [failure_mapM, hmap, List.zipIdx_map_snd, List.range_eq_range']

/-- What is raised is the first failure of the conversions. -/
theorem failure_build (hkeys : c.hasKeys = true) :
    failure (build R c) = first (c.failures R) := by
  have hfalse : ¬ ¬ c.hasKeys = true := not_not_intro hkeys
  rw [build, if_neg hfalse, Content.failures]
  refine failure_bind fun ids hids => ?_
  have hn : (c.traceIds R).length = ids.length := by
    rw [Content.traceIds, hids, List.length_map]
    rfl
  rw [hn]
  refine failure_bind fun _ _ => failure_bind fun dim hdim => failure_bind fun lambdas _ =>
    failure_bind fun seed hseed => ?_
  rw [hdim, hseed]
  refine failure_bind fun _ _ => failure_bind fun centroid _ => ?_
  rw [← failure_entries]
  cases ids.zipIdx.mapM fun t => c.entry R t.2 t.1 <;> rfl

end Failures

section Success

variable {R} {c : Content F E} {s : Loaded F E}

/-- What an entry is made of. -/
theorem entry_eq_ok {i : ℕ} {tid : Json F} {m : Str × Record F}
    (h : c.entry R i tid = .ok m) : m.1 = R.str tid ∧
      (∃ kind, item (c.field "kinds") i = .ok kind ∧ m.2.kind = R.str kind) ∧
      (∃ pinned, item (c.field "pinned") i = .ok pinned ∧
        m.2.pinned = truthy R.isZero pinned) ∧
      row c.bitsPacked i = .ok m.2.bitsPacked ∧
      ∃ x, scalar c.weights i = .ok x ∧ m.2.weight = R.numerics.double x := by
  simp only [Content.entry, bind_eq_ok] at h
  obtain ⟨kind, hkind, pinned, hpinned, x, -, payload, -, bits, hbits, l1, -, norm, -, weight,
    hweight, ts, -, h⟩ := h
  cases h
  exact ⟨rfl, ⟨kind, hkind, rfl⟩, ⟨pinned, hpinned, rfl⟩, hbits, weight, hweight, rfl⟩

/-- What a service is made of. -/
theorem build_eq_ok (h : build R c = .ok s) : ∃ ids dim centroid entries,
    toList (c.field "trace_ids") = .ok ids ∧ toInt R (c.field "dim") = .ok dim ∧
      c.centroid R = .ok centroid ∧
      List.Forall₂ (fun t m => c.entry R t.2 t.1 = .ok m) ids.zipIdx entries ∧
      s.dim = dim.toNat ∧ s.centroid = centroid ∧ s.entries = .ofList entries := by
  unfold build at h
  split at h
  · cases h
  · simp only [bind_eq_ok] at h
    obtain ⟨ids, hids, -, -, dim, hdim, lambdas, -, seed, -, -, -, centroid, hcentroid, entries,
      hentries, h⟩ := h
    cases h
    exact ⟨ids, dim, centroid, entries, hids, hdim, hcentroid, forall₂_of_mapM hentries, rfl, rfl,
      rfl⟩

theorem map_traceIds {ids : List (Json F)} {entries : List (Str × Record F)}
    (hrows : List.Forall₂ (fun t m => c.entry R t.2 t.1 = .ok m) ids.zipIdx entries) :
    Assoc.keys entries = ids.map R.str := by
  have hkeys : List.Forall₂ Eq (ids.zipIdx.map fun t => R.str t.1) (Assoc.keys entries) := by
    rw [Assoc.keys, List.forall₂_map_left_iff, List.forall₂_map_right_iff]
    exact hrows.imp fun t m ht => (entry_eq_ok ht).1.symm
  have hfst : ids.zipIdx.map (fun t => R.str t.1) = ids.map R.str :=
    calc ids.zipIdx.map (fun t => R.str t.1)
        = (ids.zipIdx.map (·.1)).map R.str := by
          rw [List.map_map]
          rfl
      _ = ids.map R.str := by rw [List.zipIdx_map_fst]
  rw [List.forall₂_eq_eq_eq] at hkeys
  rw [← hkeys, hfst]

theorem shape_row {α : Type} {a r : NdArray α} {i : ℕ} (h : row a i = .ok r) :
    r.shape = a.shape.tail := by
  unfold row at h
  split at h
  · next r' hr =>
    cases h
    exact NdArray.shape_of_mem_rows (List.mem_of_getElem? hr)
  · cases h

/-- A service that is loaded is well formed exactly if the fields are consistent. -/
theorem admitted_iff (h : build R c = .ok s) : Admitted R c s ↔ c.Consistent R := by
  obtain ⟨ids, dim, centroid, entries, hids, hdim, hcentroid, hrows, hsdim, hscentroid, hentries⟩ :=
    build_eq_ok h
  have hids' : c.traceIds R = ids.map R.str := by
    rw [Content.traceIds, hids]
    rfl
  have hlength : (c.traceIds R).length = ids.length := by rw [hids', List.length_map]
  have hitems (hdistinct : (c.traceIds R).Nodup) : s.entries.items = entries := by
    rw [hentries]
    apply Dict.items_ofList
    rw [map_traceIds hrows, ← hids']
    exact hdistinct
  have hrow : ∀ i < (c.traceIds R).length, ∃ tid, ∃ m ∈ entries, c.entry R i tid = .ok m := by
    intro i hi
    rw [hlength] at hi
    obtain ⟨m, hm, hentry⟩ := (mem_of_forall₂ hrows).2 (ids[i], i)
      (List.mk_mem_zipIdx_iff_getElem?.mpr (List.getElem?_eq_getElem hi))
    exact ⟨ids[i], m, hm, hentry⟩
  have hmem : ∀ m ∈ entries, ∃ i < (c.traceIds R).length, ∃ tid, c.entry R i tid = .ok m := by
    intro m hm
    obtain ⟨t, ht, hentry⟩ := (mem_of_forall₂ hrows).1 m hm
    rw [hlength]
    exact ⟨t.2, List.snd_lt_of_mem_zipIdx ht, t.1, hentry⟩
  constructor
  · intro had
    have heq := hitems had.distinct
    refine ⟨fun dim' hdim' hne => ?_, fun i hi kind hkind => ?_,
      fun i hi kind pinned hkind hpinned => ?_, had.distinct, fun dim' a hdim' ha => ?_,
      fun i hi x hx => ?_⟩
    · obtain rfl : dim = dim' := Except.ok.inj (hdim.symm.trans hdim')
      obtain ⟨tid, m, hm, hentry⟩ := hrow 0 (List.length_pos_iff.mpr hne)
      rw [← shape_row (entry_eq_ok hentry).2.2.2.1, ← hsdim]
      exact had.packed m (heq ▸ hm)
    · obtain ⟨tid, m, hm, hentry⟩ := hrow i hi
      obtain ⟨-, ⟨kind', hkind', hmkind⟩, -⟩ := entry_eq_ok hentry
      rw [Except.ok.inj (hkind.symm.trans hkind'), ← hmkind]
      exact had.kind m (heq ▸ hm)
    · obtain ⟨tid, m, hm, hentry⟩ := hrow i hi
      obtain ⟨-, ⟨kind', hkind', hmkind⟩, ⟨pinned', hpinned', hmpinned⟩, -⟩ := entry_eq_ok hentry
      rw [Except.ok.inj (hkind.symm.trans hkind'), Except.ok.inj (hpinned.symm.trans hpinned'),
        ← hmkind, ← hmpinned]
      exact had.pinned m (heq ▸ hm)
    · obtain rfl : dim = dim' := Except.ok.inj (hdim.symm.trans hdim')
      rw [← hsdim]
      exact had.centroid a (hscentroid.trans (Except.ok.inj (hcentroid.symm.trans ha)))
    · obtain ⟨tid, m, hm, hentry⟩ := hrow i hi
      obtain ⟨-, -, -, -, x', hx', hweight⟩ := entry_eq_ok hentry
      rw [Except.ok.inj (hx.symm.trans hx'), ← hweight]
      exact had.weight m (heq ▸ hm)
  · intro hc
    have heq := hitems hc.distinct
    refine ⟨fun m hm => ?_, fun m hm => ?_, fun m hm => ?_, hc.distinct, fun a ha => ?_,
      fun m hm => ?_⟩
    · obtain ⟨i, hi, tid, hentry⟩ := hmem m (heq ▸ hm)
      rw [shape_row (entry_eq_ok hentry).2.2.2.1, hsdim]
      exact hc.packed dim hdim (List.ne_nil_of_length_pos (Nat.zero_lt_of_lt hi))
    · obtain ⟨i, hi, tid, hentry⟩ := hmem m (heq ▸ hm)
      obtain ⟨-, ⟨kind, hkind, hmkind⟩, -⟩ := entry_eq_ok hentry
      rw [hmkind]
      exact hc.kind i hi kind hkind
    · obtain ⟨i, hi, tid, hentry⟩ := hmem m (heq ▸ hm)
      obtain ⟨-, ⟨kind, hkind, hmkind⟩, ⟨pinned, hpinned, hmpinned⟩, -⟩ := entry_eq_ok hentry
      rw [hmkind, hmpinned]
      exact hc.pinned i hi kind pinned hkind hpinned
    · rw [hsdim]
      exact hc.centroid dim a hdim (hcentroid.trans (congrArg _ (hscentroid.symm.trans ha)))
    · obtain ⟨i, hi, tid, hentry⟩ := hmem m (heq ▸ hm)
      obtain ⟨-, -, -, -, x, hx, hweight⟩ := entry_eq_ok hentry
      rw [hweight]
      exact hc.weight i hi x hx

end Success

section Load

variable [Json.FloatText F]

/-- Whatever the archive, `load` raises `ValueError` or admits a well-formed service exactly if,
where the archive can be read and no key is missing, the first conversion that fails raises
`ValueError`, or none fails and the fields are consistent. -/
theorem load_admits_iff (R : Runtime F E) (z : Npz F E) : Admits R z ↔
    ∀ c, read R z = some c → c.hasKeys = true →
      first (c.failures R) = some .value ∨
        first (c.failures R) = none ∧ c.Consistent R := by
  cases hread : read R z with
  | none => simp [Admits, load, hread]
  | some c =>
    have hload : load R z = build R c := by rw [load, hread]
    cases hkeys : c.hasKeys with
    | false =>
      have hbuild : build R c = .error .value := by
        rw [build, if_pos (by simp [hkeys])]
        rfl
      refine iff_of_true (.inl (hload.trans hbuild)) fun c' hc' hkeys' => ?_
      cases hc'
      exact absurd (hkeys.symm.trans hkeys') Bool.false_ne_true
    | true =>
      have hfailure := failure_build (R := R) hkeys
      constructor
      · rintro (h | ⟨c', s, hc', h, had⟩) c'' hc'' -
        · cases hc''
          rw [← hfailure, ← hload]
          exact .inl (failure_eq_some.mpr h)
        · cases hc''
          cases hread.symm.trans hc'
          rw [hload] at h
          rw [← hfailure]
          exact .inr ⟨failure_eq_none.mpr ⟨s, h⟩, (admitted_iff h).mp had⟩
      · intro h
        rcases h c rfl hkeys with h | ⟨h, hc⟩
        · rw [← hfailure, ← hload] at h
          exact .inl (failure_eq_some.mp h)
        · rw [← hfailure] at h
          obtain ⟨s, hs⟩ := failure_eq_none.mp h
          exact .inr ⟨c, s, hread, hload.trans hs, (admitted_iff hs).mpr hc⟩

end Load

namespace Demo

open MemoryService.Demo

def runtime : Runtime Flt Flt where
  numerics := numerics
  unicode := .ascii
  truncate x := match x with
    | .minusOne => -1
    | .zero => 0
    | .one => 1
  isZero x := x = .zero
  str v := match v with
    | .str s => s
    | v => Json.render metaStyle v
  str_str _ := rfl
  floatOfInt n := some (numerics.quot n.toNat 1)
  floatOfText s := some (Json.FloatText.ofText s)
  asFloat32 v := match v with
    | .arr items => match items.mapM asFloat with
      | some l => .ok (.ofList (l.map numerics.single))
      | none => .error .type
    | _ => .error .type
  asFloat32_floats l := by
    have h : (l.map fun x => (Json.float x : Json Flt)).mapM asFloat = some (l.map id) :=
      mapM_map fun _ _ => rfl
    simp only [h, List.map_id]
  buildRotation dim seed := if 0 ≤ dim ∧ 0 ≤ seed then .ok () else .error .value
  nonneg_of_buildRotation dim seed h := by
    split at h
    · next hnonneg => exact hnonneg
    · cases h

/-- One row in dimension 1, whose kind is `bogus`. -/
def bogus : Npz Flt Flt where
  bitsPacked := some (.stack 1 [[128]] (by simp))
  l1s := some (.ofList [.one])
  weights := some (.ofList [.one])
  lastDecayTs := some (.ofList [.finite .zero])
  norms := some (.ofList [.one])
  metadata := utf8 (lit ("\x7b\"version\":3,\"dim\":1,\"seed\":0,\"decay_lambdas\":\x7b\x7d," ++
    "\"trace_ids\":[\"t\"],\"kinds\":[\"bogus\"],\"pinned\":[false],\"payloads\":[null]\x7d"))
  version := some 3

/-- An archive with a kind that there is none of is loaded. -/
theorem bogus_admitted : ¬ Admits runtime bogus := by
  have hkinds : ((load runtime bogus).toOption.map fun s =>
      s.entries.items.map fun m => m.2.kind) = some [lit "bogus"] := by decide +kernel
  obtain ⟨s, hs, hkinds⟩ := Option.map_eq_some_iff.mp hkinds
  have hload : load runtime bogus = .ok s := by
    cases h : load runtime bogus with
    | error e => simp [h, Except.toOption] at hs
    | ok s' => simpa [h, Except.toOption] using hs
  rintro (h | ⟨c, s', -, h, had⟩)
  · cases h.symm.trans hload
  · obtain rfl : s' = s := Except.ok.inj (h.symm.trans hload)
    have hmem : lit "bogus" ∈ s'.entries.items.map fun m => m.2.kind := by
      rw [hkinds]
      exact List.mem_singleton_self _
    obtain ⟨m, hm, hkind⟩ := List.mem_map.mp hmem
    have hvalid := had.kind m hm
    rw [hkind] at hvalid
    exact absurd hvalid (by decide)

end Demo

end Loader
end Memory
end Arcane
