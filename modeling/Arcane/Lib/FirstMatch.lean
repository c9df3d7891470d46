import Mathlib.Data.Nat.Notation
import Mathlib.Data.List.Basic

/-!
# Two readings of one rule list

A list is searched for the first rule that applies; `find?_map_eq_iff` says when two readings of
the rules come to the same verdict.
-/

namespace FirstMatch

variable {α β : Type} {p q : α → Bool} {f : α → β} {l post : List α} {x : α}

/-- The first rule that only `p` applies is made good by the next one that `q` applies. -/
def MadeGood (p q : α → Bool) (f : α → β) (x : α) (post : List α) : Prop :=
  p x = true → q x = false → (post.find? q).map f = some (f x)

/-- What is asked of the first rule that one reading applies, where the other does not. -/
def Reconciled (p q : α → Bool) (f : α → β) (l : List α) : Prop :=
  ∀ pre x post, l = pre ++ x :: post → (∀ y ∈ pre, p y = false ∧ q y = false) →
    MadeGood p q f x post ∧ MadeGood q p f x post

/-- Behind a rule that neither reading applies all is as before. -/
theorem reconciled_cons (hp : p x = false) (hq : q x = false) :
    Reconciled p q f (x :: l) ↔ Reconciled p q f l := by
  constructor
  · intro h pre y post hl hpre
    refine h (x :: pre) y post (by rw [hl, List.cons_append]) fun z hz => ?_
    rcases List.mem_cons.mp hz with rfl | hz
    · exact ⟨hp, hq⟩
    · exact hpre z hz
  · intro h pre y post hl hpre
    cases pre with
    | nil =>
      obtain ⟨rfl, rfl⟩ := List.cons.inj hl
      exact ⟨fun h => absurd h (by simp [hp]), fun h => absurd h (by simp [hq])⟩
    | cons z pre =>
      obtain ⟨rfl, rfl⟩ := List.cons.inj hl
      exact h pre y post rfl fun w hw => hpre w (List.mem_cons_of_mem _ hw)

/-- A rule that one reading applies is where the verdict falls. -/
theorem reconciled_cons_of_applies (h : p x = true ∨ q x = true) :
    Reconciled p q f (x :: l) ↔ MadeGood p q f x l ∧ MadeGood q p f x l := by
  constructor
  · intro hrec
    exact hrec [] x l rfl (by simp)
  · intro hgood pre y post hl hpre
    cases pre with
    | nil =>
      obtain ⟨rfl, rfl⟩ := List.cons.inj hl
      exact hgood
    | cons z pre =>
      obtain ⟨rfl, rfl⟩ := List.cons.inj hl
      obtain ⟨hp, hq⟩ := hpre x (by simp)
      rw [hp, hq] at h
      exact absurd h (by simp)

theorem find?_map_eq_iff :
    (l.find? p).map f = (l.find? q).map f ↔ Reconciled p q f l := by
  induction l with
  | nil => exact iff_of_true rfl fun pre x post hl => absurd hl (by simp)
  | cons x l ih =>
    cases hp : p x <;> cases hq : q x
    · rw [reconciled_cons hp hq, ← ih, List.find?_cons_of_neg (by simp [hp]),
        List.find?_cons_of_neg (by simp [hq])]
    · rw [reconciled_cons_of_applies (.inr hq), List.find?_cons_of_neg (by simp [hp]),
        List.find?_cons_of_pos hq, Option.map_some]
      simp [MadeGood, hp, hq]
    · rw [reconciled_cons_of_applies (.inl hp), List.find?_cons_of_pos hp,
        List.find?_cons_of_neg (by simp [hq]), Option.map_some, eq_comm]
      simp [MadeGood, hp, hq]
    · rw [reconciled_cons_of_applies (.inl hp), List.find?_cons_of_pos hp,
        List.find?_cons_of_pos hq]
      simp [MadeGood, hp, hq]

end FirstMatch
