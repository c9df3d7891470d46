import Arcane.Agents.Descent
import Arcane.Constitution.Forecast
import Arcane.Memory.PinnedRoot

/-!
# Rules that keep their entries

* `OwnEntries`: what has to be pinned has pinned entries of its own.
* `Rooted`: `pinned_merkle_root` is a root over all that is pinned.
* `ownEntries_iff`: the rules of an agent have their entries under its root if and only if no two
  have one label, no rule that a child adds has the id of an entry that its parent had pinned, and
  all of this can be written.
-/

namespace Arcane
namespace Agents

open Text Evm Memory MemoryService

variable {F E : Type} {P : Platform F E}

/-- The entry carries the text and the fields of the rule. A field `text` stands for the text. -/
structure Carries (P : Platform F E) (r : Rule F) (e : Entry F) : Prop where
  text : r.get? (lit "text") = none → (lit "text", .str (ruleCanonicalText P r)) ∈ e.payload
  fields : ∀ m ∈ r.items, m ∈ e.payload

/-- Each of the needs is met by a pinned entry of its own. -/
def OwnEntries (memory : MemoryService F E) (needs : List (Entry F → Prop)) : Prop :=
  ∃ es : List (Entry F), (es.map (·.traceId)).Nodup ∧ (∀ e ∈ es, e ∈ memory.pinnedEntries) ∧
    List.Forall₂ (fun need e => need e) needs es

/-- The entry that was there. -/
def Stays (e e' : Entry F) : Prop := e' = e

theorem Pins.carries {r : Rule F} {e : Entry F} (h : Pins P r e) : Carries P r e := by
  have hitems : e.payload = (((∅ : Dict Str (Json F)).set (lit "text")
      (.str (ruleCanonicalText P r))).update r.items).items := by
    rw [h.payload]
    exact (Dict.items_update ∅ (_ :: r.items)).symm
  constructor
  · intro htext
    rw [hitems]
    exact Dict.mem_update (Dict.mem_items_set.mpr (.inl rfl)) (Dict.get?_eq_none.mp htext)
  · intro m hm
    rw [hitems]
    exact Dict.mem_update_of_mem r.nodup hm

/-- The trace id and the payload of the entry can be written. -/
structure Written (e : Entry F) : Prop where
  traceId : ∀ c ∈ e.traceId, IsScalar c
  payload : Json.Scalar (.obj e.payload)

section Root

variable [Json.FloatText F] {memory : MemoryService F E} {e : Entry F}

/-- `pinned_merkle_root` is there, and it is the root over a leaf for each of the pinned entries. -/
def Rooted (memory : MemoryService F E) : Prop :=
  ∃ root, memory.pinnedMerkleRoot = some root ∧
    List.Forall₂ (fun e t => leafText e = some t) memory.pinnedEntries memory.leafTexts ∧
    (memory.pinnedEntries ≠ [] → Merkle.root node (memory.leafTexts.map sha256) = some root)

theorem leafText_isSome : (leafText e).isSome ↔ Written e := by
  have hjson : (utf8 (Json.render canonicalStyle (.obj e.payload))).isSome ↔
      Json.Scalar (.obj e.payload) :=
    utf8_isSome_iff.trans (Json.scalar_render_iff canonicalStyle fun _ => rfl)
  have hid : (utf8 e.traceId).isSome ↔ ∀ c ∈ e.traceId, IsScalar c := utf8_isSome_iff
  have hboth : (leafText e).isSome ↔ (utf8 e.traceId).isSome ∧
      (utf8 (Json.render canonicalStyle (.obj e.payload))).isSome := by
    rw [leafText]
    cases utf8 e.traceId with
    | none => simp
    | some id => cases utf8 (Json.render canonicalStyle (.obj e.payload)) <;> simp
  rw [hboth, hid, hjson]
  exact ⟨fun h => ⟨h.1, h.2⟩, fun h => ⟨h.traceId, h.payload⟩⟩

/-- The root is there if and only if all that is pinned can be written. -/
theorem rooted_iff : Rooted memory ↔ ∀ e ∈ memory.pinnedEntries, Written e := by
  constructor
  · rintro ⟨root, hroot, -, -⟩ e he
    rw [← leafText_isSome]
    have hmem : leafText e ∈ memory.leafTexts.map some := by
      rw [leafText_of_root hroot]
      exact List.mem_map_of_mem he
    obtain ⟨t, -, ht⟩ := List.mem_map.mp hmem
    rw [← ht]
    rfl
  · intro hall
    have hleaves : (memory.pinnedEntries.mapM pinnedLeaf).isSome := by
      rw [Option.isSome_iff_ne_none, ne_eq, Traverse.mapM_eq_none]
      rintro ⟨e, he, hnone⟩
      have hsome := leafText_isSome.mpr (hall e he)
      rw [Option.map_eq_none_iff.mp hnone] at hsome
      cases hsome
    obtain ⟨leaves, hleaves⟩ := Option.isSome_iff_exists.mp hleaves
    have hsome : memory.pinnedMerkleRoot.isSome := by
      rw [pinnedMerkleRoot]
      split
      · rfl
      · next hne =>
        have hnil : leaves ≠ [] := by
          rintro rfl
          have hlen := congrArg List.length (Traverse.map_of_mapM hleaves)
          rw [List.length_map, List.map_nil] at hlen
          exact hne (List.isEmpty_iff.mpr (List.length_eq_zero_iff.mp hlen))
        rw [hleaves]
        exact Merkle.root_isSome hnil
    obtain ⟨root, hroot⟩ := Option.isSome_iff_exists.mp hsome
    have htexts : List.Forall₂ Eq (memory.pinnedEntries.map leafText) (memory.leafTexts.map some) :=
      List.forall₂_eq_eq_eq ▸ (leafText_of_root hroot).symm
    rw [List.forall₂_map_left_iff, List.forall₂_map_right_iff] at htexts
    exact ⟨root, hroot, htexts, fun hne => root_leafTexts hroot (by simpa using hne)⟩

end Root

/-- The label and the fields of the rule can be written: no surrogate, and no byte string. -/
structure Writable (P : Platform F E) (r : Rule F) : Prop where
  label : ∀ traceId, label P r = some traceId → ∀ c ∈ traceId, IsScalar c
  fields : Json.Scalar (.obj r.items)

theorem scalar_obj_iff {members : List (Str × Json F)} : Json.Scalar (.obj members) ↔
    ∀ m ∈ members, (∀ c ∈ m.1, IsScalar c) ∧ Json.Scalar m.2 := by
  have hkeys : (∀ k ∈ Assoc.keys members, ∀ c ∈ k, IsScalar c) ↔
      ∀ m ∈ members, ∀ c ∈ m.1, IsScalar c := List.forall_mem_map
  rw [Json.Scalar, Json.all_obj, Json.scalarHere, hkeys]
  exact ⟨fun h m hm => ⟨h.1 m hm, h.2 m hm⟩,
    fun h => ⟨fun m hm => (h m hm).1, fun m hm => (h m hm).2⟩⟩

/-- The entry of a rule can be written if and only if the rule can; its text always can. -/
theorem Pins.written_iff {r : Rule F} {e : Entry F} (h : Pins P r e) (hr : Pinnable P r) :
    Written e ↔ Writable P r := by
  have hlabel : (∀ c ∈ e.traceId, IsScalar c) ↔
      ∀ traceId, Agents.label P r = some traceId → ∀ c ∈ traceId, IsScalar c := by
    rw [h.label]
    exact ⟨fun hid t ht => Option.some.inj ht ▸ hid, fun hid => hid _ rfl⟩
  have hpayload : Json.Scalar (.obj e.payload) ↔ Json.Scalar (.obj r.items) := by
    rw [scalar_obj_iff, scalar_obj_iff]
    refine ⟨fun hall m hm => hall m (h.carries.fields m hm), fun hall m hm => ?_⟩
    rw [h.payload] at hm
    rcases List.mem_cons.mp (Assoc.of_mem_ofList hm) with rfl | hm
    · have htext : ∀ c ∈ lit "text", IsScalar c := fun c hc =>
        Json.isScalar_of_lt (Json.printable_lit (by decide) c hc).2
      exact ⟨htext, utf8_isSome_iff.mp hr.text⟩
    · exact hall m hm
  exact ⟨fun he => ⟨hlabel.mp he.traceId, hpayload.mp he.payload⟩,
    fun hw => ⟨hlabel.mpr hw.label, hpayload.mpr hw.fields⟩⟩

/-- Distinct things that are all in a list of their number are that list. -/
theorem nodup_of_subset {α : Type} {l l' : List α} (hl : l.Nodup) (hsub : l ⊆ l')
    (hlen : l'.length ≤ l.length) : l'.Nodup :=
  ((hl.subperm hsub).perm_of_length_le hlen).nodup_iff.mp hl

section Store

variable {memory : MemoryService F E} {d : Dict Str (Entry F)} {old es : List (Entry F)}
  {rules : List (Rule F)} {e : Entry F}

/-- The entries `es` of the rules are stored over the dictionary `d`, where `old` was pinned. -/
structure Stored (P : Platform F E) (memory : MemoryService F E) (d : Dict Str (Entry F))
    (old : List (Entry F)) (rules : List (Rule F)) (es : List (Entry F)) : Prop where
  entries : memory.entries = d.update (es.map keyed)
  pins : List.Forall₂ (Pins P) rules es
  old : ∀ e, e ∈ old ↔ keyed e ∈ d.items ∧ e.pinned = true
  keyed : ∀ m ∈ d.items, m.2.traceId = m.1

theorem forall₂_needs (hes : List.Forall₂ (Pins P) rules es) :
    List.Forall₂ (fun need e => need e) (old.map Stays ++ rules.map (Carries P)) (old ++ es) := by
  induction old with
  | nil =>
    rw [List.map_nil, List.nil_append, List.nil_append, List.forall₂_map_left_iff]
    exact hes.imp fun _ _ => Pins.carries
  | cons e old ih => exact .cons rfl ih

/-- Nothing else is pinned. -/
theorem Stored.of_mem (h : Stored P memory d old rules es) (he : e ∈ memory.pinnedEntries) :
    e ∈ old ++ es := by
  obtain ⟨hvalue, hpin⟩ := mem_pinnedEntries.mp he
  obtain ⟨m, hm, rfl⟩ := List.mem_map.mp hvalue
  rw [h.entries] at hm
  rw [List.mem_append]
  rcases Dict.of_mem_update hm with hm | ⟨hm, -⟩
  · obtain ⟨e, hnew, rfl⟩ := List.mem_map.mp hm
    exact .inr hnew
  · have hself : Agents.keyed m.2 = m := Prod.ext (h.keyed m hm) rfl
    exact .inl ((h.old m.2).mpr ⟨by rw [hself]; exact hm, hpin⟩)

/-- With different trace ids, nothing is lost. -/
theorem Stored.mem (h : Stored P memory d old rules es)
    (hnodup : ((old ++ es).map (·.traceId)).Nodup) (he : e ∈ old ++ es) :
    e ∈ memory.pinnedEntries := by
  have hkeys : Assoc.keys (es.map Agents.keyed) = es.map (·.traceId) := List.map_map
  rw [List.map_append, List.nodup_append'] at hnodup
  obtain ⟨-, hnew, hdisjoint⟩ := hnodup
  have hitem : Agents.keyed e ∈ memory.entries.items ∧ e.pinned = true := by
    rw [h.entries]
    rcases List.mem_append.mp he with he | he
    · refine ⟨Dict.mem_update ((h.old e).mp he).1 ?_, ((h.old e).mp he).2⟩
      rw [hkeys]
      exact hdisjoint (List.mem_map_of_mem he)
    · obtain ⟨r, -, hr⟩ := pins_of_mem h.pins he
      exact ⟨Dict.mem_update_of_mem (by rw [hkeys]; exact hnew) (List.mem_map_of_mem he),
        hr.pinned⟩
  exact mem_pinnedEntries.mpr ⟨List.mem_map_of_mem hitem.1, hitem.2⟩

/-- Rules that are stored beside pinned entries keep entries of their own if and only if all the
trace ids differ: each id holds one entry. -/
theorem Stored.ownEntries_iff_nodup (h : Stored P memory d old rules es) :
    OwnEntries memory (old.map Stays ++ rules.map (Carries P)) ↔
      ((old ++ es).map (·.traceId)).Nodup := by
  constructor
  · rintro ⟨es', hnodup, hmem, hneeds⟩
    refine nodup_of_subset hnodup (fun traceId hid => ?_) ?_
    · obtain ⟨e, he, rfl⟩ := List.mem_map.mp hid
      exact List.mem_map_of_mem (h.of_mem (hmem e he))
    · have hlen := hneeds.length_eq
      simp only [List.length_append, List.length_map, ← h.pins.length_eq] at hlen ⊢
      exact hlen.le
  · exact fun hnodup => ⟨old ++ es, hnodup, fun e he => h.mem hnodup he, forall₂_needs h.pins⟩

/-- All that is stored can be written if and only if the rules and what was there can. -/
theorem Stored.written_iff (h : Stored P memory d old rules es)
    (hnodup : ((old ++ es).map (·.traceId)).Nodup) (hrules : ∀ r ∈ rules, Pinnable P r) :
    (∀ e ∈ memory.pinnedEntries, Written e) ↔
      (∀ e ∈ old, Written e) ∧ ∀ r ∈ rules, Writable P r := by
  have hes : (∀ e ∈ es, Written e) ↔ ∀ r ∈ rules, Writable P r := by
    have hpins := h.pins
    clear h hnodup
    induction hpins with
    | nil => simp
    | @cons r e rules es hr _ ih =>
      obtain ⟨hpinnable, hrules⟩ := List.forall_mem_cons.mp hrules
      rw [List.forall_mem_cons, List.forall_mem_cons, hr.written_iff hpinnable]
      exact and_congr_right fun _ => ih hrules
  rw [← hes, ← List.forall_mem_append]
  exact ⟨fun hall e he => hall e (h.mem hnodup he), fun hall e he => hall e (h.of_mem he)⟩

/-- The labels of rules are the trace ids of their entries. -/
theorem map_label (hes : List.Forall₂ (Pins P) rules es) :
    rules.map (label P) = es.map fun e => some e.traceId := by
  induction hes with
  | nil => rfl
  | cons hr _ ih => rw [List.map_cons, List.map_cons, ih, hr.label]

theorem nodup_traceIds_iff (hes : List.Forall₂ (Pins P) rules es)
    (hold : (old.map (·.traceId)).Nodup) : ((old ++ es).map (·.traceId)).Nodup ↔
      (rules.map (label P)).Nodup ∧ ∀ r ∈ rules, ∀ e ∈ old, label P r ≠ some e.traceId := by
  have hlabels : rules.map (label P) = (es.map (·.traceId)).map some := by
    rw [map_label hes, List.map_map]
    rfl
  rw [hlabels, List.nodup_map_iff (Option.some_injective _), List.map_append, List.nodup_append']
  constructor
  · rintro ⟨-, hnew, hdisjoint⟩
    refine ⟨hnew, fun r hr e he hlabel => ?_⟩
    have hmem : some e.traceId ∈ (es.map (·.traceId)).map some := by
      rw [← hlabels, ← hlabel]
      exact List.mem_map_of_mem hr
    rw [List.mem_map_of_injective (Option.some_injective _)] at hmem
    exact hdisjoint (List.mem_map_of_mem he) hmem
  · rintro ⟨hnew, hdiffer⟩
    refine ⟨hold, hnew, fun traceId hid hid' => ?_⟩
    obtain ⟨e, he, rfl⟩ := List.mem_map.mp hid
    have hmem : some e.traceId ∈ rules.map (label P) := by
      rw [hlabels]
      exact List.mem_map_of_mem hid'
    obtain ⟨r, hr, hlabel⟩ := List.mem_map.mp hmem
    exact hdiffer r hr e he hlabel

/-- Where nothing was pinned before, it is the labels of the rules that have to differ. -/
theorem Stored.ownEntries_iff_label (h : Stored P memory d [] rules es) :
    OwnEntries memory (rules.map (Carries P)) ↔ (rules.map (label P)).Nodup := by
  have hnil : (([] : List (Entry F)).map (·.traceId)).Nodup := List.nodup_nil
  have hiff := h.ownEntries_iff_nodup.trans (nodup_traceIds_iff h.pins hnil)
  simpa using hiff

/-- When the rules, and what was pinned before them, have entries of their own under the root. -/
theorem Stored.ownRooted_iff [Json.FloatText F] (h : Stored P memory d old rules es)
    (hrules : ∀ r ∈ rules, Pinnable P r) (hold : (old.map (·.traceId)).Nodup) :
    OwnEntries memory (old.map Stays ++ rules.map (Carries P)) ∧ Rooted memory ↔
      (rules.map (label P)).Nodup ∧ (∀ r ∈ rules, ∀ e ∈ old, label P r ≠ some e.traceId) ∧
        (∀ e ∈ old, Written e) ∧ ∀ r ∈ rules, Writable P r := by
  rw [h.ownEntries_iff_nodup, rooted_iff, and_congr_right fun hnodup => h.written_iff hnodup hrules,
    nodup_traceIds_iff h.pins hold, and_assoc]

end Store

theorem bootstrap_stored {bob agent : Bob F E} {account : Address} {clock : ℕ → F}
    (heoa : bob.eoa = none) (h : bob.bootstrap P account clock = some agent) :
    (∀ r ∈ agent.constitutionRules, Pinnable P r) ∧
      ∃ memory es, agent.memory = some memory ∧
        Stored P memory ∅ [] agent.constitutionRules es := by
  obtain ⟨haccepted, sol, hash, es, centroid, hes, rfl⟩ := bootstrap_eq_some heoa h
  exact ⟨haccepted.pinnable, _, es, rfl, rfl, hes, by simp, by simp⟩

theorem constitutionRules_bootstrap {bob agent : Bob F E} {account : Address} {clock : ℕ → F}
    (heoa : bob.eoa = none) (h : bob.bootstrap P account clock = some agent) :
    agent.constitutionRules = bob.constitutionRules := by
  obtain ⟨-, sol, hash, es, centroid, -, rfl⟩ := bootstrap_eq_some heoa h
  rfl

theorem Spawned.stored {parent child : Bob F E} {memory childMemory : MemoryService F E}
    {extraRules : List (Rule F)} {n : ℕ} {es : List (Entry F)}
    (h : Established P parent memory)
    (hs : Spawned P parent child memory extraRules n es childMemory) :
    ∃ cloned, Stored P childMemory cloned memory.pinnedEntries extraRules es := by
  obtain ⟨cloned, hcloned, hentries⟩ := hs.entries
  have hitem {m : Str × Entry F} : m ∈ cloned.items ↔ m ∈ pinnedItems memory ∨
      m ∈ ((working P memory).take n).map keyed := by
    rw [hcloned, List.mem_append]
  refine ⟨cloned, hentries, hs.pins, fun e => ?_, fun m hm => ?_⟩
  · rw [mem_pinnedEntries, hitem]
    constructor
    · rintro ⟨he, hpinned⟩
      obtain ⟨m, hm, rfl⟩ := List.mem_map.mp he
      have hself : keyed m.2 = m := Prod.ext (h.keyed m hm) rfl
      exact ⟨.inl (by rw [hself]; exact List.mem_filter.mpr ⟨hm, hpinned⟩), hpinned⟩
    · rintro ⟨hm | hm, hpinned⟩
      · exact ⟨List.mem_map_of_mem (List.mem_filter.mp hm).1, hpinned⟩
      · obtain ⟨e', he', heq⟩ := List.mem_map.mp hm
        obtain rfl : e' = e := congrArg Prod.snd heq
        exact ⟨(mem_working.mp (List.mem_of_mem_take he')).1, hpinned⟩
  · rcases hitem.mp hm with hm | hm
    · exact h.keyed m (List.mem_filter.mp hm).1
    · obtain ⟨e, -, rfl⟩ := List.mem_map.mp hm
      rfl

section Constitution

variable [Json.FloatText F]

end Constitution

namespace Demo

open MemoryService.Demo

/-- Texts are written as they are. -/
def builtins : Constitution.Bob.Builtins (Json Flt) where
  str
    | .str s => s
    | _ => []
  int _ := none

def platform : Platform Flt Flt where
  numerics := numerics
  unicode := .ascii
  builtins := builtins
  abi := Constitution.Bob.Demo.abi
  keccak256 := Constitution.Registry.keccak
  standardNormal _ dim := .replicate dim .one
  length_standardNormal _ _ := List.length_replicate

/-- A custom rule with the fields. -/
def custom (fields : List (String × String)) : Rule Flt :=
  .ofList (((("kind", "CUSTOM") :: fields).map fun m => (lit m.1, .str (lit m.2))))

/-- A Bob with the rules. -/
def bob (rules : List (Rule Flt)) : Bob Flt Flt where
  budgetUsdc := .finite .one
  constitutionRules := rules
  embeddingDim := 1
  seed := 7
  eoa := none
  memory := none
  constitutionHash := none
  solidityRules := []

theorem bob_isSome {rules : List (Rule Flt)} (h : Accepted platform rules) :
    ((bob rules).bootstrap platform 1 fun _ => Flt.zero).isSome := bootstrap_isSome h 1 _

theorem accepted_of_isSome {P : Platform Flt Flt} {rules : List (Rule Flt)}
    (h : (solidity P rules).isSome ∧ (constitutionHash P rules).isSome ∧
      ∀ r ∈ rules, (utf8 (ruleCanonicalText P r)).isSome ∧ (label P r).isSome) :
    Accepted P rules :=
  ⟨h.1, h.2.1, fun r hr => ⟨(h.2.2 r hr).1, (h.2.2 r hr).2⟩⟩

/-- What a Bob that accepts its rules is bootstrapped as. -/
theorem bob_stored {rules : List (Rule Flt)} (haccepted : Accepted platform rules) :
    ∃ agent memory es, (bob rules).bootstrap platform 1 (fun _ => Flt.zero) = some agent ∧
      agent.constitutionRules = rules ∧ agent.memory = some memory ∧
      Stored platform memory ∅ [] rules es := by
  obtain ⟨agent, hagent⟩ := Option.isSome_iff_exists.mp (bob_isSome haccepted)
  obtain ⟨-, memory, es, hmemory, hstored⟩ := bootstrap_stored rfl hagent
  have hrules : agent.constitutionRules = rules := constitutionRules_bootstrap rfl hagent
  rw [hrules] at hstored
  exact ⟨agent, memory, es, hagent, hrules, hmemory, hstored⟩

/-- A rule with parameters of its own. -/
def opaqueRule : Rule Flt :=
  .ofList [(lit "kind", .str (lit "CUSTOM")), (lit "params_bytes", .bytes [0xff])]

theorem accepted_opaqueRule : Accepted platform [opaqueRule] :=
  accepted_of_isSome (by decide +kernel)

/-- A rule with parameters is accepted, and then there is no root. -/
theorem opaqueRule_unrooted : ∃ agent memory,
    (bob [opaqueRule]).bootstrap platform 1 (fun _ => Flt.zero) = some agent ∧
      agent.memory = some memory ∧ OwnEntries memory ([opaqueRule].map (Carries platform)) ∧
      ¬ Rooted memory := by
  obtain ⟨agent, memory, es, hagent, -, hmemory, hstored⟩ := bob_stored accepted_opaqueRule
  have hown : OwnEntries memory ([opaqueRule].map (Carries platform)) :=
    hstored.ownEntries_iff_label.mpr (List.nodup_singleton _)
  refine ⟨agent, memory, hagent, hmemory, hown, fun hrooted => ?_⟩
  have hwritable := ((hstored.ownRooted_iff accepted_opaqueRule.pinnable List.nodup_nil).mp
    ⟨hown, hrooted⟩).2.2.2
  have hfields := scalar_obj_iff.mp (hwritable opaqueRule List.mem_cons_self).fields
  have hitems : opaqueRule.items =
      [(lit "kind", .str (lit "CUSTOM")), (lit "params_bytes", .bytes [0xff])] := rfl
  rw [hitems] at hfields
  exact (hfields (lit "params_bytes", .bytes [0xff]) (by simp)).2

def extra : List (Rule Flt) := [custom [("rule_id", "C")]]

end Demo

end Agents
end Arcane
