import Arcane.Lib.Clock
import Mathlib.Algebra.Order.Field.Basic
import Mathlib.Tactic.Linarith
import Mathlib.Tactic.Ring

/-!
# Token buckets

A bucket of at most `capacity` tokens that refills lazily: a request brings a reading of the clock,
and what has come in since the last reading is added before it takes its tokens.

* `refilled`, `take`: the tokens there are at a reading, and a request.
* `granted_le`: what requests take is bounded by what was there and the forward steps of
  their readings.
* `granted_drain`: requests that ask for each forward step by itself take that much.
* `wait`, `le_refilled_wait`, `refilled_lt_of_lt_wait`: a request that has to wait is granted after
  that time and not before.
-/

namespace TokenBucket

variable {K : Type} [Field K] [LinearOrder K]

structure Bucket (K : Type) where
  tokens : K
  last : K

variable (capacity rate : K) (b : Bucket K)

/-- The tokens at the reading `now`. -/
def refilled (now : K) : K := min capacity (b.tokens + max 0 (now - b.last) * rate)

/-- A request for `n` tokens takes all of them or none. -/
def take (n now : K) : Bucket K :=
  if n ≤ refilled capacity rate b now then ⟨refilled capacity rate b now - n, now⟩
  else ⟨refilled capacity rate b now, now⟩

/-- What the requests take in all. -/
def granted : Bucket K → List (K × K) → K
  | _, [] => 0
  | b, (n, now) :: qs =>
    (if n ≤ refilled capacity rate b now then n else 0) +
      granted (take capacity rate b n now) qs

variable {capacity rate b}

@[simp]
theorem last_take (n now : K) : (take capacity rate b n now).last = now := by
  rw [take]
  split <;> rfl

/-- A request, as a balance. -/
theorem tokens_take (capacity rate : K) (b : Bucket K) (n now : K) :
    (if n ≤ refilled capacity rate b now then n else 0) + (take capacity rate b n now).tokens =
      refilled capacity rate b now := by
  rw [take]
  split <;> simp

/-- Requests that ask for each forward step by itself, and for something where there is none. -/
def drain (rate t : K) : List K → List (K × K)
  | [] => []
  | u :: l => (if t < u then (u - t) * rate else 1, u) :: drain rate u l

theorem map_snd_drain (rate t : K) (l : List K) : (drain rate t l).map Prod.snd = l := by
  induction l generalizing t with
  | nil => rfl
  | cons u l ih => rw [drain, List.map_cons, ih]

variable [IsStrictOrderedRing K]

theorem tokens_take_nonneg (hcapacity : 0 ≤ capacity) (hrate : 0 ≤ rate) (hb : 0 ≤ b.tokens)
    (n now : K) : 0 ≤ (take capacity rate b n now).tokens := by
  have hrefilled : 0 ≤ refilled capacity rate b now :=
    le_min hcapacity (add_nonneg hb (mul_nonneg (le_max_left 0 _) hrate))
  rw [take]
  split
  · next h => exact sub_nonneg.mpr h
  · exact hrefilled

/-- The requests take what was there and what came in, at most. -/
theorem granted_le (hcapacity : 0 ≤ capacity) (hrate : 0 ≤ rate) {b : Bucket K}
    (hb : 0 ≤ b.tokens) (qs : List (K × K)) :
    granted capacity rate b qs ≤ b.tokens + rate * Clock.forward b.last (qs.map Prod.snd) := by
  induction qs generalizing b with
  | nil => simpa [granted, Clock.forward] using hb
  | cons q qs ih =>
    obtain ⟨n, now⟩ := q
    have hrest := ih (tokens_take_nonneg hcapacity hrate hb n now)
    have hbalance := tokens_take capacity rate b n now
    have hrefilled : refilled capacity rate b now ≤ b.tokens + max 0 (now - b.last) * rate :=
      min_le_right _ _
    rw [last_take] at hrest
    simp only [granted, List.map_cons, Clock.forward, mul_add]
    linarith [mul_comm rate (max 0 (now - b.last))]

/-- From an empty bucket that holds every one of its steps, they take them all. -/
theorem granted_drain (hcapacity : 0 ≤ capacity) {t : K} {l : List K}
    (hroom : ∀ q ∈ drain rate t l, q.1 ≤ capacity) :
    granted capacity rate ⟨0, t⟩ (drain rate t l) = rate * Clock.forward t l := by
  induction l generalizing t with
  | nil => simp [drain, granted, Clock.forward]
  | cons u l ih =>
    obtain ⟨hfirst, hrest⟩ := List.forall_mem_cons.mp hroom
    by_cases h : t < u
    · rw [if_pos h] at hfirst
      have hrefilled : refilled capacity rate ⟨0, t⟩ u = (u - t) * rate := by
        rw [refilled, max_eq_right (sub_pos.mpr h).le, zero_add, min_eq_right hfirst]
      simp only [drain, granted, take, if_pos h, hrefilled, le_rfl, if_true, sub_self, ih hrest,
        Clock.forward, max_eq_right (sub_pos.mpr h).le]
      ring
    · have hrefilled : refilled capacity rate ⟨0, t⟩ u = 0 := by
        rw [refilled, max_eq_left (sub_nonpos.mpr (not_lt.mp h)), zero_mul, zero_add,
          min_eq_right hcapacity]
      simp only [drain, granted, take, if_neg h, hrefilled, not_le.mpr (zero_lt_one' K), if_false,
        ih hrest, Clock.forward, max_eq_left (sub_nonpos.mpr (not_lt.mp h)), zero_add]

/-! ## Waiting -/

/-- How long a request has to wait at the reading `now`. -/
def wait (capacity rate : K) (b : Bucket K) (n now : K) : K :=
  if n ≤ refilled capacity rate b now then 0 else (n - refilled capacity rate b now) / rate

theorem wait_nonneg (hrate : 0 < rate) (n now : K) : 0 ≤ wait capacity rate b n now := by
  rw [wait]
  split
  · exact le_rfl
  · next h => exact div_nonneg (sub_nonneg.mpr (not_le.mp h).le) hrate.le

/-- The bucket refills on from a reading that is no earlier than its last. -/
theorem refilled_add {now d : K} (hlast : b.last ≤ now) (hd : 0 ≤ d) (hrate : 0 ≤ rate) :
    refilled capacity rate b (now + d) =
      min capacity (refilled capacity rate b now + d * rate) := by
  have hthen : b.last ≤ now + d := hlast.trans (le_add_of_nonneg_right hd)
  have hsum : b.tokens + (now + d - b.last) * rate =
      b.tokens + (now - b.last) * rate + d * rate := by ring
  have hroom : capacity ≤ capacity + d * rate := le_add_of_nonneg_right (mul_nonneg hd hrate)
  rw [refilled, refilled, max_eq_right (sub_nonneg.mpr hlast), max_eq_right (sub_nonneg.mpr hthen),
    hsum, ← min_add_add_right, ← min_assoc, min_eq_left hroom]

/-- A request that fits is granted after its wait. -/
theorem le_refilled_wait (hrate : 0 < rate) {n now : K} (hlast : b.last ≤ now)
    (hn : n ≤ capacity) : n ≤ refilled capacity rate b (now + wait capacity rate b n now) := by
  rw [refilled_add hlast (wait_nonneg hrate n now) hrate.le, wait]
  split
  · next h =>
    rw [zero_mul, add_zero]
    exact le_min hn h
  · rw [div_mul_cancel₀ _ hrate.ne', add_sub_cancel]
    exact le_min hn le_rfl

/-- It is refused before. -/
theorem refilled_lt_of_lt_wait (hrate : 0 < rate) {n now t : K} (hlast : b.last ≤ now)
    (hnow : now ≤ t) (ht : t < now + wait capacity rate b n now) :
    refilled capacity rate b t < n := by
  obtain ⟨d, rfl⟩ : ∃ d, t = now + d := ⟨t - now, by rw [add_sub_cancel]⟩
  have hd : 0 ≤ d := le_of_add_le_add_left ((add_zero now).le.trans hnow)
  have hlt : d < wait capacity rate b n now := lt_of_add_lt_add_left ht
  rw [wait] at hlt
  split at hlt
  · exact absurd hlt (not_lt.mpr hd)
  · rw [lt_div_iff₀ hrate] at hlt
    rw [refilled_add hlast hd hrate.le]
    exact (min_le_right _ _).trans_lt (lt_sub_iff_add_lt'.mp hlt)

end TokenBucket
