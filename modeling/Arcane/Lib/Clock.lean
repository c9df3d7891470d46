import Mathlib.Algebra.Order.Group.Defs
import Mathlib.Algebra.Order.Group.MinMax
import Mathlib.Tactic.Abel
import Mathlib.Tactic.GCongr

/-!
# Readings of a clock that may step back

What a component sees of time that only credits the forward steps between the readings it takes.

* `forward t l`: the sum of the forward steps of the readings `l` after the reading `t`.
* `latest t l`, `earliest t l`: the largest and the smallest reading.
* `progress l`, `spread l`: the forward steps of a list of readings, and how far apart they are.
* `latest_sub_le_forward`: the forward steps make up for the way to the largest reading.
* `forward_of_sorted`: those of a clock that never steps back do no more.
-/

namespace Clock

variable {K : Type} [LinearOrder K]

/-- The largest of the readings `l` and the reading `t` before them. -/
def latest (t : K) (l : List K) : K := l.foldl max t

/-- The smallest of the readings `l` and the reading `t` before them. -/
def earliest (t : K) (l : List K) : K := l.foldl min t

theorem latest_max (t u : K) (l : List K) : latest (max t u) l = max t (latest u l) := by
  induction l generalizing u with
  | nil => rfl
  | cons v l ih =>
    show latest (max (max t u) v) l = max t (latest (max u v) l)
    rw [max_assoc, ih]

theorem latest_cons (t u : K) (l : List K) : latest t (u :: l) = max t (latest u l) :=
  latest_max t u l

theorem le_latest (t : K) (l : List K) : t ≤ latest t l := by
  cases l with
  | nil => exact le_rfl
  | cons u l => exact latest_cons t u l ▸ le_max_left t _

theorem latest_le {t b : K} {l : List K} (ht : t ≤ b) (h : ∀ u ∈ l, u ≤ b) : latest t l ≤ b := by
  induction l generalizing t with
  | nil => exact ht
  | cons u l ih =>
    obtain ⟨hu, hl⟩ := List.forall_mem_cons.mp h
    exact ih (max_le ht hu) hl

variable [AddCommGroup K]

/-- The sum of the forward steps of the readings `l` after the reading `t`. -/
def forward : K → List K → K
  | _, [] => 0
  | t, u :: l => max 0 (u - t) + forward u l

/-- The forward steps of all the readings of a list. -/
def progress : List K → K
  | [] => 0
  | t :: l => forward t l

/-- The way from the smallest to the largest reading of a list. -/
def spread : List K → K
  | [] => 0
  | t :: l => latest t l - earliest t l

theorem forward_concat (t u : K) (l : List K) :
    forward t (l ++ [u]) = forward t l + max 0 (u - l.getLastD t) := by
  induction l generalizing t with
  | nil => simp [forward]
  | cons v l ih => simp only [List.cons_append, forward, ih, add_assoc, List.getLastD_cons]

variable [IsOrderedAddMonoid K]

theorem forward_nonneg (t : K) (l : List K) : 0 ≤ forward t l := by
  induction l generalizing t with
  | nil => exact le_rfl
  | cons u l ih => exact add_nonneg (le_max_left 0 _) (ih u)

/-- The forward steps make up for the way to the largest reading. -/
theorem latest_sub_le_forward (t : K) (l : List K) : latest t l - t ≤ forward t l := by
  induction l generalizing t with
  | nil => exact (sub_self t).le
  | cons u l ih =>
    have hstep : 0 ≤ max 0 (u - t) := le_max_left 0 _
    have hrest : 0 ≤ forward u l := forward_nonneg u l
    rw [latest_cons, sub_le_iff_le_add, forward]
    refine max_le (le_add_of_nonneg_left (add_nonneg hstep hrest)) ?_
    calc latest u l = (latest u l - u) + (u - t) + t := by abel
      _ ≤ forward u l + max 0 (u - t) + t := by
        gcongr
        · exact ih u
        · exact le_max_right 0 _
      _ = max 0 (u - t) + forward u l + t := by abel

/-- A clock that never steps back goes from the first reading to the largest one. -/
theorem forward_of_sorted {t : K} {l : List K} (h : (t :: l).Pairwise (· ≤ ·)) :
    forward t l = latest t l - t := by
  induction l generalizing t with
  | nil => exact (sub_self t).symm
  | cons u l ih =>
    obtain ⟨ht, hu⟩ := List.pairwise_cons.mp h
    have hle : t ≤ u := ht u List.mem_cons_self
    rw [forward, ih hu, latest_cons, max_eq_right (hle.trans (le_latest u l)),
      max_eq_right (sub_nonneg.mpr hle)]
    abel

end Clock
