import Mathlib.Data.List.Nodup
import Mathlib.Data.Set.Function

/-!
# Merkle trees that repeat the last node of an odd level

`root` joins the nodes of a level in pairs until one is left. The root determines the leaves
(`eq_of_root_eq`) as soon as no leaf occurs twice, `node` is injective on the pairs that are
joined, and no such pair is joined to a leaf. The repeated last nodes are no obstacle, since the
two nodes of any other pair differ, and neither is the number of leaves, since a node is at one
height only (`At.unique`).
-/

namespace Merkle

variable {α : Type} (node : α → α → α)

/-- The pairs of a level: the last node of an odd one stands with itself. -/
def neighbours : List α → List (α × α)
  | [] => []
  | [a] => [(a, a)]
  | a :: b :: l => (a, b) :: neighbours l

/-- The level above. -/
def pairUp (l : List α) : List α := (neighbours l).map fun p => node p.1 p.2

/-- The levels up to one of at most one node, given fuel for each level. -/
def climb : ℕ → List α → List α
  | 0, l => l
  | n + 1, l => if l.length ≤ 1 then l else climb n (pairUp node l)

/-- The pairs that `climb` joins. -/
def joins : ℕ → List α → List (α × α)
  | 0, _ => []
  | n + 1, l => if l.length ≤ 1 then [] else neighbours l ++ joins n (pairUp node l)

def root (l : List α) : Option α := (climb node l.length l).head?

/-- The pairs that are joined in the tree over `l`. -/
def pairs (l : List α) : List (α × α) := joins node l.length l

theorem length_neighbours (l : List α) : (neighbours l).length = (l.length + 1) / 2 := by
  induction l using neighbours.induct with
  | case1 => simp [neighbours]
  | case2 a => simp [neighbours]
  | case3 a b l ih =>
    simp only [neighbours, List.length_cons, ih]
    omega

theorem length_pairUp (l : List α) : (pairUp node l).length = (l.length + 1) / 2 := by
  rw [pairUp, List.length_map, length_neighbours]

theorem mem_of_mem_neighbours {l : List α} {p : α × α} (h : p ∈ neighbours l) :
    p.1 ∈ l ∧ p.2 ∈ l := by
  induction l using neighbours.induct with
  | case1 => cases h
  | case2 a =>
    rw [neighbours, List.mem_singleton] at h
    simp [h]
  | case3 a b l ih =>
    rw [neighbours, List.mem_cons] at h
    rcases h with rfl | h
    · simp
    · exact ⟨by simp [(ih h).1], by simp [(ih h).2]⟩

theorem nodup_neighbours {l : List α} (h : l.Nodup) : (neighbours l).Nodup := by
  induction l using neighbours.induct with
  | case1 => exact List.nodup_nil
  | case2 a => exact List.nodup_singleton _
  | case3 a b l ih =>
    obtain ⟨ha, hl⟩ := List.nodup_cons.mp h
    rw [neighbours, List.nodup_cons]
    refine ⟨fun hm => ha ?_, ih (List.nodup_cons.mp hl).2⟩
    exact List.mem_cons_of_mem _ (mem_of_mem_neighbours hm).1

/-- The pairs give back a level without repeated nodes. -/
theorem eq_of_neighbours_eq {l l' : List α} (h : neighbours l = neighbours l') (hl : l.Nodup)
    (hl' : l'.Nodup) : l = l' := by
  have hne : ∀ {a b : α} {t : List α}, (a :: b :: t).Nodup → a ≠ b := by
    rintro a b t ht rfl
    exact (List.nodup_cons.mp ht).1 (by simp)
  induction l using neighbours.induct generalizing l' with
  | case1 =>
    rcases l' with _ | ⟨a, _ | ⟨b, t⟩⟩
    · rfl
    · cases h
    · cases h
  | case2 a =>
    rcases l' with _ | ⟨c, _ | ⟨d, t⟩⟩
    · cases h
    · cases h
      rfl
    · simp only [neighbours, List.cons.injEq, Prod.mk.injEq] at h
      exact absurd (h.1.1.symm.trans h.1.2) (hne hl')
  | case3 a b l ih =>
    rcases l' with _ | ⟨c, _ | ⟨d, t⟩⟩
    · cases h
    · simp only [neighbours, List.cons.injEq, Prod.mk.injEq] at h
      exact absurd (h.1.1.trans h.1.2.symm) (hne hl)
    · simp only [neighbours, List.cons.injEq, Prod.mk.injEq] at h
      obtain ⟨⟨rfl, rfl⟩, h⟩ := h
      rw [ih h hl.of_cons.of_cons hl'.of_cons.of_cons]

/-- What holds of the leaves and is made by joining holds of all that is joined. -/
theorem forall_pairs {Q : α → Prop} (hn : ∀ a b, Q (node a b)) {l : List α} (hl : ∀ x ∈ l, Q x) :
    ∀ p ∈ pairs node l, Q p.1 ∧ Q p.2 := by
  have hj : ∀ n (l : List α), (∀ x ∈ l, Q x) → ∀ p ∈ joins node n l, Q p.1 ∧ Q p.2 := by
    intro n
    induction n with
    | zero => simp [joins]
    | succ n ih =>
      intro l hl p hp
      rw [joins] at hp
      split at hp
      · cases hp
      · rcases List.mem_append.mp hp with hp | hp
        · have hm := mem_of_mem_neighbours hp
          exact ⟨hl _ hm.1, hl _ hm.2⟩
        · apply ih _ _ p hp
          intro x hx
          obtain ⟨q, -, rfl⟩ := List.mem_map.mp hx
          exact hn _ _
  exact hj _ l hl

/-- A root is a leaf, or was joined. -/
theorem of_root {l : List α} {r : α} (h : root node l = some r) :
    r ∈ l ∨ ∃ p ∈ pairs node l, r = node p.1 p.2 := by
  have hc : ∀ n (l : List α), (climb node n l).head? = some r →
      r ∈ l ∨ ∃ p ∈ joins node n l, r = node p.1 p.2 := by
    intro n
    induction n with
    | zero => exact fun l h => .inl (List.mem_of_head? h)
    | succ n ih =>
      intro l h
      rw [climb] at h
      rw [joins]
      split at h
      · exact .inl (List.mem_of_head? h)
      · next h1 =>
        rw [if_neg h1]
        right
        rcases ih _ h with h | ⟨p, hp, hr⟩
        · obtain ⟨p, hp, rfl⟩ := List.mem_map.mp h
          exact ⟨p, List.mem_append_left _ hp, rfl⟩
        · exact ⟨p, List.mem_append_right _ hp, hr⟩
  exact hc _ l h

section Binding

variable {node} {S : Set (α × α)} {L : Set α}

/-- `x` is a node at height `k` over the leaves `L`, made by joins of `S`. -/
inductive At (node : α → α → α) (S : Set (α × α)) (L : Set α) : ℕ → α → Prop where
  | leaf {x : α} : x ∈ L → At node S L 0 x
  | join {k : ℕ} {p : α × α} : p ∈ S → At node S L k p.1 → At node S L k p.2 →
    At node S L (k + 1) (node p.1 p.2)

theorem At.unique (hinj : S.InjOn fun p => node p.1 p.2) (hleaf : ∀ p ∈ S, node p.1 p.2 ∉ L)
    {j k : ℕ} {x : α} (h : At node S L j x) (h' : At node S L k x) : j = k := by
  induction h generalizing k with
  | leaf hx =>
    cases h' with
    | leaf _ => rfl
    | join hp _ _ => exact absurd hx (hleaf _ hp)
  | @join j p hp _ _ ih _ =>
    generalize hy : node p.1 p.2 = y at h'
    cases h' with
    | leaf hx => exact absurd (hy ▸ hx) (hleaf _ hp)
    | join hq h₁ _ =>
      obtain rfl := hinj hp hq hy
      rw [ih h₁]

theorem at_pairUp {k : ℕ} {l : List α} (h : ∀ x ∈ l, At node S L k x)
    (hS : ∀ p ∈ neighbours l, p ∈ S) : ∀ x ∈ pairUp node l, At node S L (k + 1) x := by
  intro x hx
  obtain ⟨p, hp, rfl⟩ := List.mem_map.mp hx
  obtain ⟨h₁, h₂⟩ := mem_of_mem_neighbours hp
  exact .join (hS p hp) (h _ h₁) (h _ h₂)

/-- What `climb` ends with is above the level it started from, unless that has one node. -/
theorem at_climb {n k : ℕ} {l : List α} (hn : l.length ≤ n) (h : ∀ x ∈ l, At node S L k x)
    (hS : ∀ p ∈ joins node n l, p ∈ S) {r : α} (hr : (climb node n l).head? = some r) :
    ∃ j, At node S L j r ∧ k ≤ j ∧ (k < j ↔ 1 < l.length) := by
  induction n generalizing k l with
  | zero =>
    rw [climb] at hr
    exact ⟨k, h r (List.mem_of_head? hr), le_refl k, by omega⟩
  | succ n ih =>
    rw [climb] at hr
    rw [joins] at hS
    split at hr
    · exact ⟨k, h r (List.mem_of_head? hr), le_refl k, by omega⟩
    · next h1 =>
      rw [if_neg h1] at hS
      have hlen : (pairUp node l).length ≤ n := by
        rw [length_pairUp]
        omega
      have hup := at_pairUp h fun p hp => hS p (List.mem_append_left _ hp)
      obtain ⟨j, hj, hkj, -⟩ := ih hlen hup (fun p hp => hS p (List.mem_append_right _ hp)) hr
      exact ⟨j, hj, by omega, by omega⟩

theorem climb_of_le {n : ℕ} {l : List α} (h : l.length ≤ 1) : climb node n l = l := by
  cases n with
  | zero => rfl
  | succ n => rw [climb, if_pos h]

theorem nodup_pairUp (hinj : S.InjOn fun p => node p.1 p.2) {l : List α} (h : l.Nodup)
    (hS : ∀ p ∈ neighbours l, p ∈ S) : (pairUp node l).Nodup :=
  (nodup_neighbours h).map_on fun p hp q hq => hinj (hS p hp) (hS q hq)

theorem eq_of_map_join_eq (hinj : S.InjOn fun p => node p.1 p.2) {ps qs : List (α × α)}
    (hp : ∀ p ∈ ps, p ∈ S) (hq : ∀ q ∈ qs, q ∈ S)
    (h : ps.map (fun p => node p.1 p.2) = qs.map fun q => node q.1 q.2) : ps = qs := by
  induction ps generalizing qs with
  | nil =>
    cases qs with
    | nil => rfl
    | cons q qs => cases h
  | cons p ps ih =>
    cases qs with
    | nil => cases h
    | cons q qs =>
      rw [List.map_cons, List.map_cons, List.cons.injEq] at h
      rw [hinj (hp p (by simp)) (hq q (by simp)) h.1]
      rw [ih (fun x hx => hp x (by simp [hx])) (fun x hx => hq x (by simp [hx])) h.2]

/-- Two levels of one height that end in the same node are equal. -/
theorem eq_of_climb_eq (hinj : S.InjOn fun p => node p.1 p.2) (hleaf : ∀ p ∈ S, node p.1 p.2 ∉ L)
    {n m k : ℕ} {l l' : List α} (hn : l.length ≤ n) (hm : l'.length ≤ m)
    (h : ∀ x ∈ l, At node S L k x) (h' : ∀ x ∈ l', At node S L k x)
    (hS : ∀ p ∈ joins node n l, p ∈ S) (hS' : ∀ p ∈ joins node m l', p ∈ S)
    (hl : l.Nodup) (hl' : l'.Nodup) {r : α} (hr : (climb node n l).head? = some r)
    (hr' : (climb node m l').head? = some r) : l = l' := by
  induction n generalizing m k l l' with
  | zero =>
    rw [List.eq_nil_of_length_eq_zero (Nat.le_zero.mp hn)] at hr
    cases hr
  | succ n ih =>
    -- Equal roots stand at one height, so both levels have one node or neither has.
    have hone : 1 < l.length ↔ 1 < l'.length := by
      obtain ⟨j, hj, -, hlt⟩ := at_climb hn h hS hr
      obtain ⟨j', hj', -, hlt'⟩ := at_climb hm h' hS' hr'
      obtain rfl := hj.unique hinj hleaf hj'
      exact hlt.symm.trans hlt'
    by_cases h1 : l.length ≤ 1
    · have h1' : l'.length ≤ 1 := by omega
      rw [climb_of_le h1] at hr
      rw [climb_of_le h1'] at hr'
      rcases l with _ | ⟨a, _ | ⟨b, t⟩⟩
      · cases hr
      · rcases l' with _ | ⟨c, _ | ⟨d, t⟩⟩
        · cases hr'
        · cases hr
          cases hr'
          rfl
        · simp at h1'
      · simp at h1
    · have h1' : ¬ l'.length ≤ 1 := by omega
      obtain ⟨m, rfl⟩ : ∃ m', m = m' + 1 := ⟨m - 1, by omega⟩
      rw [climb, if_neg h1] at hr
      rw [climb, if_neg h1'] at hr'
      rw [joins, if_neg h1] at hS
      rw [joins, if_neg h1'] at hS'
      simp only [List.mem_append] at hS hS'
      have hN : ∀ p ∈ neighbours l, p ∈ S := fun p hp => hS p (.inl hp)
      have hN' : ∀ p ∈ neighbours l', p ∈ S := fun p hp => hS' p (.inl hp)
      have hup : pairUp node l = pairUp node l' :=
        ih (by rw [length_pairUp]; omega) (by rw [length_pairUp]; omega) (at_pairUp h hN)
          (at_pairUp h' hN') (fun p hp => hS p (.inr hp)) (fun p hp => hS' p (.inr hp))
          (nodup_pairUp hinj hl hN) (nodup_pairUp hinj hl' hN') hr hr'
      exact eq_of_neighbours_eq (eq_of_map_join_eq hinj hN hN' hup) hl hl'

/-- The root determines the leaves. -/
theorem eq_of_root_eq {l l' : List α}
    (hinj : Set.InjOn (fun p : α × α => node p.1 p.2) {p | p ∈ pairs node l ∨ p ∈ pairs node l'})
    (hleaf : ∀ p, p ∈ pairs node l ∨ p ∈ pairs node l' → node p.1 p.2 ∉ l ∧ node p.1 p.2 ∉ l')
    (hl : l.Nodup) (hl' : l'.Nodup) {r : α} (hr : root node l = some r)
    (hr' : root node l' = some r) : l = l' := by
  refine eq_of_climb_eq (L := {x | x ∈ l ∨ x ∈ l'}) (k := 0) hinj ?_ le_rfl le_rfl ?_ ?_
    (fun p hp => .inl hp) (fun p hp => .inr hp) hl hl' hr hr'
  · rintro p hp (h | h)
    · exact (hleaf p hp).1 h
    · exact (hleaf p hp).2 h
  · exact fun x hx => .leaf (.inl hx)
  · exact fun x hx => .leaf (.inr hx)

theorem root_isSome {l : List α} (h : l ≠ []) : (root node l).isSome := by
  have hc : ∀ n (l : List α), l ≠ [] → climb node n l ≠ [] := by
    intro n
    induction n with
    | zero => exact fun l h => h
    | succ n ih =>
      intro l h
      rw [climb]
      split
      · exact h
      · apply ih
        intro hp
        have hlen := congrArg List.length hp
        rw [length_pairUp, List.length_nil] at hlen
        have hpos := List.length_pos_iff.mpr h
        omega
  rw [root, List.isSome_head?]
  exact hc _ _ h

end Binding

end Merkle
