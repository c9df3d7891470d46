import Mathlib.Data.Int.Notation
import Mathlib.Data.List.Chain
import Mathlib.Algebra.Order.Group.Int

/-!
# Windows over the integers

* `Tiling lo hi ws`: the closed windows `ws` cut `[lo, hi]` into consecutive pieces.
* `Tiling.mem_iff`, `Tiling.chain`, `Tiling.pairwise`, `Tiling.countP`: what is covered, once.
* `Tiling.flatMap_filter`: a list that is sorted by a key is put together again from the parts of it
  whose keys are in the windows.
* `flatMap_filter_of_pairwise`: the same for windows with gaps between them.
-/

namespace Windows

/-- The integers from the first component to the second. -/
abbrev Window := ℤ × ℤ

def Window.Holds (w : Window) (b : ℤ) : Prop := w.1 ≤ b ∧ b ≤ w.2

instance (w : Window) (b : ℤ) : Decidable (w.Holds b) := inferInstanceAs (Decidable (_ ∧ _))

theorem Window.holds_iff {lo hi b : ℤ} : Window.Holds (lo, hi) b ↔ lo ≤ b ∧ b ≤ hi := Iff.rfl

/-- Consecutive non-empty windows from `lo` to `hi`. -/
inductive Tiling : ℤ → ℤ → List Window → Prop
  | nil {lo hi : ℤ} : hi < lo → Tiling lo hi []
  | cons {lo mid hi : ℤ} {ws : List Window} :
    lo ≤ mid → mid ≤ hi → Tiling (mid + 1) hi ws → Tiling lo hi ((lo, mid) :: ws)

namespace Tiling

variable {lo hi : ℤ} {ws : List Window}

/-- One window more at the end. -/
theorem concat {mid : ℤ} (h : Tiling lo mid ws) (hl : lo ≤ mid + 1) (hm : mid < hi) :
    Tiling lo hi (ws ++ [(mid + 1, hi)]) := by
  induction h with
  | @nil lo mid h =>
    obtain rfl : lo = mid + 1 := by omega
    exact .cons (by omega) (le_refl hi) (.nil (by omega))
  | cons h₁ h₂ _ ih => exact .cons h₁ (by omega) (ih (by omega) hm)

theorem bounds (h : Tiling lo hi ws) : ∀ w ∈ ws, lo ≤ w.1 ∧ w.1 ≤ w.2 ∧ w.2 ≤ hi := by
  induction h with
  | nil => simp
  | cons h₁ h₂ _ ih =>
    intro w hw
    rcases List.mem_cons.mp hw with rfl | hw
    · exact ⟨le_refl _, h₁, h₂⟩
    · have := ih w hw
      omega

/-- Each window starts where the one before it ends. -/
theorem chain (h : Tiling lo hi ws) : ws.IsChain fun v w => w.1 = v.2 + 1 := by
  induction h with
  | nil => exact .nil
  | cons _ _ h ih =>
    cases h with
    | nil => exact .singleton _
    | cons => exact .cons_cons rfl ih

theorem pairwise (h : Tiling lo hi ws) : ws.Pairwise fun v w => v.2 < w.1 := by
  induction h with
  | nil => exact .nil
  | cons _ _ h ih =>
    refine .cons (fun w hw => ?_) ih
    have := h.bounds w hw
    show _ < w.1
    omega

theorem mem_iff (h : Tiling lo hi ws) {b : ℤ} :
    (∃ w ∈ ws, w.Holds b) ↔ lo ≤ b ∧ b ≤ hi := by
  induction h with
  | nil h =>
    simp only [List.not_mem_nil, false_and, exists_false, false_iff]
    omega
  | cons h₁ h₂ _ ih =>
    rw [List.exists_mem_cons_iff, ih]
    simp only [Window.holds_iff]
    omega

/-- A number is in one window or in none. -/
theorem countP (h : Tiling lo hi ws) (b : ℤ) :
    ws.countP (fun w => w.Holds b) = if lo ≤ b ∧ b ≤ hi then 1 else 0 := by
  induction h with
  | nil h =>
    rw [if_neg (by omega)]
    rfl
  | @cons lo mid hi ws h₁ h₂ _ ih =>
    simp only [List.countP_cons, ih, decide_eq_true_eq, Window.holds_iff]
    by_cases hb : b ≤ mid
    · have hrest : ¬(mid + 1 ≤ b ∧ b ≤ hi) := by omega
      have heq : (lo ≤ b ∧ b ≤ mid) ↔ (lo ≤ b ∧ b ≤ hi) := by omega
      rw [if_neg hrest, Nat.zero_add]
      exact if_congr heq rfl rfl
    · have hhead : ¬(lo ≤ b ∧ b ≤ mid) := by omega
      have heq : (mid + 1 ≤ b ∧ b ≤ hi) ↔ (lo ≤ b ∧ b ≤ hi) := by omega
      rw [if_neg hhead, Nat.add_zero]
      exact if_congr heq rfl rfl

section Filter

variable {α : Type} {key : α → ℤ} {l : List α}

/-- In a sorted list what is in a lower window comes first. -/
theorem filter_append_filter {a m b : ℤ} (hl : l.Pairwise fun x y => key x ≤ key y) (ha : a ≤ m)
    (hb : m ≤ b) :
    l.filter (fun x => Window.Holds (a, m) (key x)) ++
      l.filter (fun x => Window.Holds (m + 1, b) (key x)) =
      l.filter (fun x => Window.Holds (a, b) (key x)) := by
  induction l with
  | nil => rfl
  | cons x l ih =>
    obtain ⟨hx, hl⟩ := List.pairwise_cons.mp hl
    have ih := ih hl
    by_cases hxm : key x ≤ m
    · have h₂ : ¬Window.Holds (m + 1, b) (key x) := fun h => by
        have := h.1
        simp only at this
        omega
      have heq : Window.Holds (a, m) (key x) ↔ Window.Holds (a, b) (key x) := by
        simp only [Window.holds_iff]
        omega
      by_cases h₁ : Window.Holds (a, m) (key x)
      · simp [h₁, heq.mp h₁, h₂, ih]
      · simp [h₁, mt heq.mpr h₁, h₂, ih]
    · -- From here on nothing is in the lower window.
      have hnone : l.filter (fun x => Window.Holds (a, m) (key x)) = [] := by
        rw [List.filter_eq_nil_iff]
        intro y hy
        have := hx y hy
        rw [decide_eq_true_eq, Window.holds_iff]
        omega
      have h₁ : ¬Window.Holds (a, m) (key x) := fun h => hxm h.2
      have heq : Window.Holds (m + 1, b) (key x) ↔ Window.Holds (a, b) (key x) := by
        simp only [Window.holds_iff]
        omega
      rw [hnone, List.nil_append] at ih
      by_cases h₂ : Window.Holds (m + 1, b) (key x)
      · simp [h₁, h₂, heq.mp h₂, hnone, ih]
      · simp [h₁, h₂, mt heq.mpr h₂, hnone, ih]

theorem flatMap_filter (h : Tiling lo hi ws) (hl : l.Pairwise fun x y => key x ≤ key y) :
    ws.flatMap (fun w => l.filter fun x => w.Holds (key x)) =
      l.filter fun x => Window.Holds (lo, hi) (key x) := by
  induction h with
  | nil h =>
    symm
    rw [List.flatMap_nil, List.filter_eq_nil_iff]
    intro x _
    simp only [Window.holds_iff, decide_eq_true_eq]
    omega
  | cons h₁ h₂ _ ih =>
    rw [List.flatMap_cons, ih]
    exact filter_append_filter hl h₁ h₂

end Filter

end Tiling

section Scattered

variable {α : Type} {key : α → ℤ} {l : List α}

/-- In a sorted list what has lower keys comes first. -/
theorem filter_append_of_lt {p q : α → Bool} (hl : l.Pairwise fun x y => key x ≤ key y)
    (hlt : ∀ x y, p x → q y → key x < key y) :
    l.filter p ++ l.filter q = l.filter fun x => p x || q x := by
  induction l with
  | nil => rfl
  | cons x l ih =>
    obtain ⟨hx, hl⟩ := List.pairwise_cons.mp hl
    have ih := ih hl
    cases hp : p x with
    | true =>
      have hq : q x = false := by
        by_contra h
        exact lt_irrefl _ (hlt x x hp (Bool.not_eq_false _ ▸ h))
      simp [hp, hq, ih]
    | false =>
      cases hq : q x with
      | false => simp [hp, hq, ih]
      | true =>
        -- from here on no key is low enough for `p`
        have hnone : l.filter p = [] := by
          rw [List.filter_eq_nil_iff]
          intro y hy hpy
          have := hlt y x hpy hq
          have := hx y hy
          omega
        rw [hnone, List.nil_append] at ih
        simp [hp, hq, hnone, ih]

/-- A sorted list gives what is in one of the windows, whatever the gaps between them. -/
theorem flatMap_filter_of_pairwise {ws : List Window} (hws : ws.Pairwise fun v w => v.2 < w.1)
    (hl : l.Pairwise fun x y => key x ≤ key y) :
    ws.flatMap (fun w => l.filter fun x => w.Holds (key x)) =
      l.filter fun x => ∃ w ∈ ws, w.Holds (key x) := by
  induction ws with
  | nil => simp
  | cons w ws ih =>
    obtain ⟨hw, hws⟩ := List.pairwise_cons.mp hws
    rw [List.flatMap_cons, ih hws, filter_append_of_lt hl]
    · refine List.filter_congr fun x _ => ?_
      rw [Bool.eq_iff_iff, Bool.or_eq_true, decide_eq_true_eq, decide_eq_true_eq, decide_eq_true_eq,
        List.exists_mem_cons_iff]
    · intro x y hx hy
      obtain ⟨v, hv, hy⟩ := of_decide_eq_true hy
      have := hw v hv
      have := (of_decide_eq_true hx).2
      have := hy.1
      omega

end Scattered

end Windows
