import Arcane.Memory.History

/-!
# Calls of a memory service

A service under its methods, each with the state that it leaves whether or not it raises, and what
an accepted `add` stores.
-/

namespace Arcane
namespace Memory

open Text

/-- The calls of a service, with readings of a clock that are numbers. -/
inductive Live (F E : Type) where
  | decayStep (now : F)
  | add (now : F) (traceId : Str) (vec : List E) (kind : Str) (pinned : Bool)
      (payload : Option (Payload F))
  | query (vec : List E) (k : ℤ)
  | setCentroid (vec : Option (List E))

def Live.Adds {F E : Type} (traceId : Str) : Live F E → Prop
  | .add _ traceId' _ _ _ _ => traceId' = traceId
  | _ => False

namespace MemoryService

variable {F E : Type} {N : Numerics F E} {s s' : MemoryService F E} {traceId : Str}
  {now : Double F} {vec : List E} {kind : Str} {pinned : Bool} {payload : Option (Payload F)}

section Calls

variable (N s)

/-- The entry that `add` makes. -/
def newEntry (now : Double F) (traceId : Str) (vec : List E) (kind : Str) (pinned : Bool)
    (payload : Option (Payload F)) : Entry F :=
  let c := code N s.dim s.seed (s.centre N) vec
  { traceId := traceId
    kind := if pinned then lit "pinned" else kind
    pinned := pinned || kind = lit "pinned"
    payload := payload.getD []
    bitsPacked := c.bitsPacked
    l1 := c.l1
    norm := c.norm
    weight := N.quot 1 1
    lastDecayTs := now }

/-- The state after a call, whether or not it raises. -/
def live : Live F E → MemoryService F E
  | .decayStep now => (s.decayStep N (.finite now)).1
  | .add now traceId vec kind pinned payload =>
    (s.add N (.finite now) traceId vec kind pinned payload).getD s
  | .query vec k => (s.query N vec k).1
  | .setCentroid vec => (s.setCentroid vec).getD s

def lives (cs : List (Live F E)) : MemoryService F E := cs.foldl (live N) s

end Calls

/-- What an accepted `add` stores. -/
theorem add_eq_some_iff : s.add N now traceId vec kind pinned payload = some s' ↔
    kind ∈ validKinds ∧ vec.length = s.dim ∧ s' = { s.ensureCentroid N with
      entries := s.entries.set traceId (s.newEntry N now traceId vec kind pinned payload) } := by
  unfold add encode
  by_cases hkind : kind ∈ validKinds
  · by_cases hlen : vec.length = s.dim
    · rw [if_neg (not_not_intro hkind), if_neg (not_not_intro hlen), Option.map_some,
        Option.some.injEq, eq_comm]
      simp [hkind, hlen, newEntry, ensureCentroid]
    · rw [if_neg (not_not_intro hkind), if_pos hlen]
      simp [hlen]
  · rw [if_pos hkind]
    simp [hkind]

/-- A query arms the centroid, or leaves all as it was. -/
theorem query_state (N : Numerics F E) (s : MemoryService F E) (vec : List E) (k : ℤ) :
    (s.query N vec k).1 = s ∨ (s.query N vec k).1 = s.ensureCentroid N := by
  unfold query
  split
  · exact .inl rfl
  · split
    · exact .inl rfl
    · next hencode =>
      obtain ⟨-, heq⟩ := encode_eq_some hencode
      exact .inr (Prod.mk.inj heq).1

/-- An entry after a decay step was there before it, and may have been reached by the loop. -/
theorem mem_decayStep {m : Str × Entry F} (hm : m ∈ (s.decayStep N now).1.entries.items) :
    m ∈ s.entries.items ∨
      ∃ e, (m.1, e) ∈ s.entries.items ∧ s.decayed N now e = some m.2 := by
  apply Assoc.of_mem_mapUntil
  simp only [decayStep] at hm
  split at hm
  · exact hm
  · exact (List.mem_filter.mp hm).1

/-- A call changes the centroid and the entries. -/
theorem live_eq (N : Numerics F E) (s : MemoryService F E) (c : Live F E) :
    ∃ centroid entries, live N s c = { s with centroid := centroid, entries := entries } := by
  cases c with
  | decayStep now => exact ⟨s.centroid, _, rfl⟩
  | add now traceId vec kind pinned payload =>
    cases h : s.add N (.finite now) traceId vec kind pinned payload with
    | none =>
      rw [live, h]
      exact ⟨s.centroid, s.entries, rfl⟩
    | some s' =>
      obtain ⟨-, -, rfl⟩ := add_eq_some_iff.mp h
      rw [live, h]
      exact ⟨_, _, rfl⟩
  | query vec k =>
    rw [live]
    rcases query_state N s vec k with h | h <;> rw [h]
    · exact ⟨s.centroid, s.entries, rfl⟩
    · exact ⟨_, s.entries, rfl⟩
  | setCentroid vec =>
    show ∃ centroid entries, (s.setCentroid vec).getD s =
      { s with centroid := centroid, entries := entries }
    unfold MemoryService.setCentroid
    split
    · exact ⟨s.centroid, s.entries, rfl⟩
    · split
      · exact ⟨none, s.entries, rfl⟩
      · split
        · exact ⟨s.centroid, s.entries, rfl⟩
        · exact ⟨_, s.entries, rfl⟩

theorem lambdas_live (c : Live F E) : (live N s c).decayLambdas = s.decayLambdas := by
  obtain ⟨centroid, entries, h⟩ := live_eq N s c
  rw [h]

/-- What holds of new entries, and of decayed ones if it did before, goes on holding. -/
theorem forall_live {p : Str × Entry F → Prop} (c : Live F E)
    (hnew : ∀ now traceId vec kind pinned payload, kind ∈ validKinds →
      p (traceId, s.newEntry N (.finite now) traceId vec kind pinned payload))
    (hdecayed : ∀ now k e e', p (k, e) → s.decayed N (.finite now) e = some e' → p (k, e'))
    (h : ∀ m ∈ s.entries.items, p m) : ∀ m ∈ (live N s c).entries.items, p m := by
  intro m hm
  cases c with
  | decayStep now =>
    rcases mem_decayStep hm with hm | ⟨e, he, hd⟩
    · exact h m hm
    · exact hdecayed now m.1 e m.2 (h _ he) hd
  | add now traceId vec kind pinned payload =>
    cases hadd : s.add N (.finite now) traceId vec kind pinned payload with
    | none =>
      rw [live, hadd] at hm
      exact h m hm
    | some s' =>
      obtain ⟨hkind, -, rfl⟩ := add_eq_some_iff.mp hadd
      rw [live, hadd, Option.getD_some] at hm
      obtain rfl | ⟨hm, -⟩ := Dict.mem_items_set.mp hm
      · exact hnew now traceId vec kind pinned payload hkind
      · exact h m hm
  | query vec k =>
    rw [live, entries_query] at hm
    exact h m hm
  | setCentroid vec =>
    rw [live, entries_setCentroid] at hm
    exact h m hm

/-- A call that is no decay step leaves the entries that it does not store. -/
theorem get?_live {c : Live F E} (hc : ¬ c.Adds traceId) (hdecay : ∀ now, c ≠ .decayStep now) :
    (live N s c).entries.get? traceId = s.entries.get? traceId := by
  cases c with
  | decayStep now => exact absurd rfl (hdecay now)
  | add now traceId' vec kind pinned payload =>
    cases h : s.add N (.finite now) traceId' vec kind pinned payload with
    | none => rw [live, h]; rfl
    | some s' =>
      obtain ⟨-, -, rfl⟩ := add_eq_some_iff.mp h
      rw [live, h, Option.getD_some, Dict.get?_set]
      exact if_neg fun heq => hc heq.symm
  | query vec k => rw [live, entries_query]
  | setCentroid vec => rw [live, entries_setCentroid]

theorem lives_concat (cs : List (Live F E)) (c : Live F E) :
    lives N s (cs ++ [c]) = live N (lives N s cs) c := List.foldl_concat ..

theorem lambdas_lives (cs : List (Live F E)) : (lives N s cs).decayLambdas = s.decayLambdas := by
  induction cs using List.reverseRecOn with
  | nil => rfl
  | append_singleton cs c ih => rw [lives_concat, lambdas_live, ih]

end MemoryService
end Memory
end Arcane
