import Arcane.DarkPool.RateLimiter
import Arcane.Lib.TokenBucket
import Arcane.Memory.Exact
import Mathlib.Algebra.Order.Archimedean.Basic

/-!
# What the rate limiter grants

Over exact rationals, the limiter is one token bucket for each key (`Represents`, `consume_spec`),
and a key is granted what the forward steps of its readings add to a full bucket
(`rate_bound_iff`).
-/

namespace Arcane
namespace DarkPool
namespace RateLimiter

open Text Memory

/-- `__init__`, unless it raises `ValueError`. -/
def new {F E : Type} (N : Numerics F E) (capacity : ℕ) (refillPerSecond : Double F) :
    Option (RateLimiter F) :=
  if capacity = 0 ∨ N.le refillPerSecond (N.quot 0 1) then none
  else some ⟨capacity, refillPerSecond, ∅⟩

/-- A call of `try_consume` that reaches the critical section with the reading `now`. -/
structure Request where
  key : Str
  tokens : ℕ
  now : ℚ
  tokens_pos : 0 < tokens

/-- The tokens that the requests take of a key. -/
def granted {E : Type} (N : Numerics ℚ E) (key : Str) : RateLimiter ℚ → List Request → ℕ
  | _, [] => 0
  | limiter, q :: qs =>
    let (limiter, ok) := limiter.consume N q.key q.tokens (.finite q.now)
    (if ok ∧ q.key = key then q.tokens else 0) + granted N key limiter qs

/-- The readings that arrive for a key. -/
def readings (key : Str) (arrivals : List (Str × ℚ)) : List ℚ :=
  (arrivals.filter fun a => a.1 = key).map Prod.snd

/-- Whatever the limiter and the amounts: requests that arrive with these keys and readings take no
more of the key than a full bucket, and the refill between its smallest and its largest reading. -/
def Bounded {E : Type} (N : Numerics ℚ E) (key : Str) (arrivals : List (Str × ℚ)) : Prop :=
  ∀ capacity refillPerSecond limiter reqs,
    new N capacity (.finite refillPerSecond) = some limiter →
    reqs.map (fun q : Request => (q.key, q.now)) = arrivals →
    (granted N key limiter reqs : ℚ) ≤
      capacity + refillPerSecond * Clock.spread (readings key arrivals)

section Refinement

variable {K E : Type} [Field K] [LinearOrder K] {N : Numerics K E} {limiter : RateLimiter K}
  {capacity : ℕ} {rate : K} {buckets : Str → Option (TokenBucket.Bucket K)}

/-- The bucket of the source. -/
def bucket (b : TokenBucket.Bucket K) : Bucket K := ⟨.finite b.tokens, .finite b.last⟩

/-- The limiter keeps these buckets. -/
structure Represents (limiter : RateLimiter K) (capacity : ℕ) (rate : K)
    (buckets : Str → Option (TokenBucket.Bucket K)) : Prop where
  capacity : limiter.capacity = capacity
  rate : limiter.refillPerSecond = .finite rate
  buckets : ∀ key, limiter.buckets.get? key = (buckets key).map bucket

/-- The bucket that a request finds: a new one is full. -/
def found (capacity : ℕ) (buckets : Str → Option (TokenBucket.Bucket K)) (key : Str) (now : K) :
    TokenBucket.Bucket K :=
  (buckets key).getD ⟨capacity, now⟩

theorem new_eq_some (hN : N.Exact) :
    new N capacity (.finite rate) = some limiter ↔
      0 < capacity ∧ 0 < rate ∧ limiter = ⟨capacity, .finite rate, ∅⟩ := by
  rw [new, hN.quot_zero]
  split_ifs with h
  · rw [hN.le] at h
    refine iff_of_false nofun ?_
    rintro ⟨hcapacity, hrate, -⟩
    exact h.elim hcapacity.ne' (not_le.mpr hrate)
  · rw [hN.le, not_or, not_le, ← Ne, ← Nat.pos_iff_ne_zero] at h
    rw [Option.some.injEq, eq_comm]
    exact ⟨fun heq => ⟨h.1, h.2, heq⟩, fun heq => heq.2.2⟩

omit [Field K] [LinearOrder K] in
theorem represents_new : Represents (⟨capacity, .finite rate, ∅⟩ : RateLimiter K) capacity rate
    fun _ => none where
  capacity := rfl
  rate := rfl
  buckets _ := rfl

theorem refilled_eq (hN : N.Exact) (h : Represents limiter capacity rate buckets)
    (b : TokenBucket.Bucket K) (now : K) :
    limiter.refilled N (bucket b) (.finite now) =
      .finite (TokenBucket.refilled (capacity : K) rate b now) := by
  simp only [refilled, bucket, hN.sub, hN.max_zero, h.rate, h.capacity, hN.mul, hN.add]
  rw [hN.quot_one, TokenBucket.refilled]
  split
  · next hlt => rw [min_eq_right ((hN.lt _ _).mp hlt).le]
  · next hlt => rw [min_eq_left (not_lt.mp (mt (hN.lt _ _).mpr hlt))]

/-- A bucket that is new at a reading is full then. -/
theorem refilled_new (now : K) :
    TokenBucket.refilled (capacity : K) rate ⟨capacity, now⟩ now = capacity := by
  rw [TokenBucket.refilled, sub_self, max_self, zero_mul, add_zero, min_self]

/-- A request of the limiter is one of the bucket of its key. -/
theorem consume_eq (hN : N.Exact) (h : Represents limiter capacity rate buckets) (key : Str)
    (n : ℕ) (now : K) :
    limiter.consume N key n (.finite now) =
      ({ limiter with
          buckets := limiter.buckets.set key
            (bucket (TokenBucket.take (capacity : K) rate (found capacity buckets key now) n
              now)) },
        decide (n ≤
          TokenBucket.refilled (capacity : K) rate (found capacity buckets key now) now)) := by
  -- what the request finds, in either case
  have htake (x : K) (hx : x = TokenBucket.refilled (capacity : K) rate
      (found capacity buckets key now) now) :
      (⟨if N.le (N.quot n 1) (.finite x) then N.sub (.finite x) (N.quot n 1) else .finite x,
        .finite now⟩ : Bucket K) = bucket (TokenBucket.take (capacity : K) rate
          (found capacity buckets key now) n now) ∧
      N.le (N.quot n 1) (.finite x) = decide (n ≤ x) := by
    have hle : N.le (N.quot n 1) (.finite x) = decide (n ≤ x) := by
      rw [hN.quot_one, Bool.eq_iff_iff, hN.le, decide_eq_true_iff]
    refine ⟨?_, hle⟩
    rw [hle, hN.quot_one, hN.sub, TokenBucket.take, ← hx]
    by_cases hn : n ≤ x
    · rw [if_pos hn, decide_eq_true hn, if_pos rfl, bucket]
    · rw [if_neg hn, decide_eq_false hn, if_neg Bool.false_ne_true, bucket]
  cases hb : buckets key with
  | none =>
    have hnone : limiter.buckets.get? key = none := by rw [h.buckets, hb, Option.map_none]
    have hfull : (capacity : K) = TokenBucket.refilled (capacity : K) rate
        (found capacity buckets key now) now := by
      rw [found, hb, Option.getD_none, refilled_new]
    obtain ⟨hbucket, hle⟩ := htake capacity hfull
    rw [consume, hnone, ← hbucket, ← hfull, ← hle, h.capacity, hN.quot_one capacity]
  | some b =>
    have hsome : limiter.buckets.get? key = some (bucket b) := by
      rw [h.buckets, hb, Option.map_some]
    have hfound : found capacity buckets key now = b := by rw [found, hb, Option.getD_some]
    obtain ⟨hbucket, hle⟩ := htake (TokenBucket.refilled (capacity : K) rate b now) (by rw [hfound])
    rw [consume, hsome, ← hbucket, hfound, ← hle, ← refilled_eq hN h]

theorem represents_consume (hN : N.Exact) (h : Represents limiter capacity rate buckets) (key : Str)
    (n : ℕ) (now : K) :
    Represents (limiter.consume N key n (.finite now)).1 capacity rate
      (Function.update buckets key
        (some (TokenBucket.take (capacity : K) rate (found capacity buckets key now) n now))) := by
  rw [consume_eq hN h]
  refine ⟨h.capacity, h.rate, fun key' => ?_⟩
  rw [Dict.get?_set, Function.update_apply]
  split
  · rfl
  · exact h.buckets key'

end Refinement

section Runs

variable {E : Type} {N : Numerics ℚ E} {limiter : RateLimiter ℚ} {capacity : ℕ} {rate : ℚ}
  {buckets : Str → Option (TokenBucket.Bucket ℚ)} {key : Str}

/-- The requests for a key, as its bucket sees them. -/
def ofKey (key : Str) (reqs : List Request) : List (ℚ × ℚ) :=
  (reqs.filter fun q => q.key = key).map fun q => ((q.tokens : ℚ), q.now)

/-- A bucket that is not there yet is full at the first reading. -/
def first (qs : List (ℚ × ℚ)) : ℚ := (qs.map Prod.snd).headD 0

theorem map_snd_ofKey (reqs : List Request) :
    (ofKey key reqs).map Prod.snd = readings key (reqs.map fun q => (q.key, q.now)) := by
  simp [ofKey, readings, List.filter_map, Function.comp_def]

/-- What a key is granted is what its bucket grants. -/
theorem granted_eq (hN : N.Exact) (h : Represents limiter capacity rate buckets)
    (reqs : List Request) :
    (granted N key limiter reqs : ℚ) =
      TokenBucket.granted (capacity : ℚ) rate
        ((buckets key).getD ⟨capacity, first (ofKey key reqs)⟩) (ofKey key reqs) := by
  induction reqs generalizing limiter buckets with
  | nil => simp [granted, ofKey, TokenBucket.granted]
  | cons q reqs ih =>
    have hrest := ih (represents_consume hN h q.key q.tokens q.now)
    rw [granted, Nat.cast_add, hrest, consume_eq hN h]
    by_cases hkey : q.key = key
    · have hcons : ofKey key (q :: reqs) = ((q.tokens : ℚ), q.now) :: ofKey key reqs := by
        rw [ofKey, List.filter_cons_of_pos (by simpa using hkey), List.map_cons, ofKey]
      rw [hcons, hkey, Function.update_self, Option.getD_some, found]
      simp [TokenBucket.granted, first]
    · have hskip : ofKey key (q :: reqs) = ofKey key reqs := by
        rw [ofKey, List.filter_cons_of_neg (by simpa using hkey), ofKey]
      rw [hskip, Function.update_of_ne (Ne.symm hkey)]
      simp [hkey]

theorem granted_new_le (hN : N.Exact) (hrate : 0 < rate) (reqs : List Request) :
    (granted N key ⟨capacity, .finite rate, ∅⟩ reqs : ℚ) ≤
      capacity + rate * Clock.progress (readings key (reqs.map fun q => (q.key, q.now))) := by
  have hle : TokenBucket.granted (capacity : ℚ) rate ⟨capacity, first (ofKey key reqs)⟩
      (ofKey key reqs) ≤ _ :=
    TokenBucket.granted_le (Nat.cast_nonneg _) hrate.le (Nat.cast_nonneg _) _
  rw [granted_eq hN represents_new, Option.getD_none, ← map_snd_ofKey]
  refine hle.trans (le_of_eq ?_)
  rw [first]
  cases (ofKey key reqs).map Prod.snd with
  | nil => rfl
  | cons t l => simp [Clock.progress, Clock.forward]

/-- Any amounts may be asked for. -/
theorem exists_reqs {arrivals : List (Str × ℚ)} {qs : List (ℚ × ℚ)}
    (hreadings : qs.map Prod.snd = readings key arrivals)
    (hqs : ∀ q ∈ qs, ∃ n : ℕ, 0 < n ∧ q.1 = n) :
    ∃ reqs : List Request, reqs.map (fun q => (q.key, q.now)) = arrivals ∧
      ofKey key reqs = qs := by
  induction arrivals generalizing qs with
  | nil => exact ⟨[], rfl, (List.map_eq_nil_iff.mp hreadings).symm⟩
  | cons a arrivals ih =>
    obtain ⟨k, now⟩ := a
    by_cases hkey : k = key
    · have hcons : readings key ((k, now) :: arrivals) = now :: readings key arrivals := by
        rw [readings, List.filter_cons_of_pos (by simpa using hkey), List.map_cons, readings]
      obtain ⟨⟨x, now'⟩, qs, rfl, rfl, hrest⟩ := List.map_eq_cons_iff.mp (hreadings.trans hcons)
      obtain ⟨⟨n, hn, rfl⟩, hwhole⟩ := List.forall_mem_cons.mp hqs
      obtain ⟨reqs, harrivals, hreqs⟩ := ih hrest hwhole
      refine ⟨⟨k, n, now', hn⟩ :: reqs, by rw [List.map_cons, harrivals], ?_⟩
      rw [ofKey, List.filter_cons_of_pos (by simpa using hkey), List.map_cons, ← hreqs, ofKey]
    · have hskip : readings key ((k, now) :: arrivals) = readings key arrivals := by
        rw [readings, List.filter_cons_of_neg (by simpa using hkey), readings]
      obtain ⟨reqs, harrivals, hreqs⟩ := ih (hreadings.trans hskip) hqs
      refine ⟨⟨k, 1, now, one_pos⟩ :: reqs, by rw [List.map_cons, harrivals], ?_⟩
      rw [ofKey, List.filter_cons_of_neg (by simpa using hkey), ← hreqs, ofKey]

/-- Rationals have a common denominator. -/
theorem exists_denominator (l : List ℚ) : ∃ D : ℕ, 0 < D ∧ ∀ x ∈ l, ∃ z : ℤ, x * D = z := by
  induction l with
  | nil => exact ⟨1, one_pos, by simp⟩
  | cons x l ih =>
    obtain ⟨D, hD, hl⟩ := ih
    refine ⟨x.den * D, Nat.mul_pos x.den_pos hD, List.forall_mem_cons.mpr ⟨⟨x.num * D, ?_⟩, ?_⟩⟩
    · push_cast
      rw [← mul_assoc, Rat.mul_den_eq_num]
    · intro y hy
      obtain ⟨z, hz⟩ := hl y hy
      refine ⟨x.den * z, ?_⟩
      push_cast
      rw [← hz]
      ring

theorem exists_bound (l : List ℚ) : ∃ C : ℕ, 0 < C ∧ ∀ x ∈ l, x ≤ C := by
  induction l with
  | nil => exact ⟨1, one_pos, by simp⟩
  | cons x l ih =>
    obtain ⟨C, hC, hl⟩ := ih
    obtain ⟨n, hn⟩ := exists_nat_ge x
    refine ⟨n + C, by omega, List.forall_mem_cons.mpr ⟨?_, fun y hy => (hl y hy).trans ?_⟩⟩
    · push_cast
      exact hn.trans (le_add_of_nonneg_right (Nat.cast_nonneg C))
    · push_cast
      exact le_add_of_nonneg_left (Nat.cast_nonneg n)

/-- At a rate that is a common denominator, each forward step is worth whole tokens. -/
theorem drain_whole {D : ℕ} (hD : 0 < D) {t : ℚ} {l : List ℚ}
    (hl : ∀ x ∈ t :: l, ∃ z : ℤ, x * D = z) :
    ∀ q ∈ TokenBucket.drain (D : ℚ) t l, ∃ n : ℕ, 0 < n ∧ q.1 = n := by
  induction l generalizing t with
  | nil => simp [TokenBucket.drain]
  | cons u l ih =>
    obtain ⟨⟨z, hz⟩, hl⟩ := List.forall_mem_cons.mp hl
    obtain ⟨w, hw⟩ := hl u List.mem_cons_self
    refine List.forall_mem_cons.mpr ⟨?_, ih hl⟩
    by_cases h : t < u
    · have hstep : (u - t) * D = ((w - z : ℤ) : ℚ) := by
        rw [sub_mul, hz, hw]
        push_cast
        rfl
      have hpos : 0 < w - z := by
        have hlt : 0 < (u - t) * D := mul_pos (sub_pos.mpr h) (Nat.cast_pos.mpr hD)
        rw [hstep] at hlt
        exact_mod_cast hlt
      refine ⟨(w - z).toNat, by omega, ?_⟩
      rw [if_pos h, hstep]
      show ((w - z : ℤ) : ℚ) = _
      exact_mod_cast (Int.toNat_of_nonneg hpos.le).symm
    · exact ⟨1, one_pos, by rw [if_neg h, Nat.cast_one]⟩

end Runs

/-- A key is granted no more than a full bucket and the refill of the time that its readings cover,
whatever is asked for, if and only if the forward steps of its readings are no more than that
time. -/
theorem rate_bound_iff {E : Type} {N : Numerics ℚ E} (hN : N.Exact) (key : Str)
    (arrivals : List (Str × ℚ)) :
    Bounded N key arrivals ↔
      Clock.progress (readings key arrivals) ≤ Clock.spread (readings key arrivals) := by
  constructor
  · intro h
    cases hreadings : readings key arrivals with
    | nil => exact le_rfl
    | cons t l =>
      obtain ⟨D, hD, hwhole⟩ := exists_denominator (t :: l)
      have hdrain := drain_whole hD hwhole
      obtain ⟨C, hC, hroom⟩ := exists_bound ((TokenBucket.drain (D : ℚ) t l).map Prod.fst)
      -- the first request empties the bucket, the others take every step
      have hqs : ((((C : ℚ), t) :: TokenBucket.drain (D : ℚ) t l).map Prod.snd) =
          readings key arrivals := by
        rw [List.map_cons, TokenBucket.map_snd_drain, hreadings]
      obtain ⟨reqs, harrivals, hreqs⟩ :=
        exists_reqs hqs (List.forall_mem_cons.mpr ⟨⟨C, hC, rfl⟩, hdrain⟩)
      have hbound := h C D ⟨C, .finite D, ∅⟩ reqs
        ((new_eq_some hN).mpr ⟨hC, Nat.cast_pos.mpr hD, rfl⟩) harrivals
      have hfull : TokenBucket.refilled (C : ℚ) (D : ℚ) ⟨C, t⟩ t = C := refilled_new t
      have hgranted : TokenBucket.granted (C : ℚ) (D : ℚ) ⟨0, t⟩ (TokenBucket.drain (D : ℚ) t l) =
          D * Clock.forward t l :=
        TokenBucket.granted_drain (Nat.cast_nonneg C) fun q hq => hroom q.1 (List.mem_map_of_mem hq)
      rw [granted_eq hN represents_new, Option.getD_none, hreqs, first, List.map_cons,
        List.headD_cons, TokenBucket.granted, TokenBucket.take, hfull, if_pos le_rfl,
        if_pos le_rfl, sub_self, hgranted, hreadings] at hbound
      exact le_of_mul_le_mul_left (le_of_add_le_add_left hbound) (Nat.cast_pos.mpr hD)
  · rintro h capacity rate limiter reqs hnew rfl
    obtain ⟨-, hrate, rfl⟩ := (new_eq_some hN).mp hnew
    exact (granted_new_le hN hrate reqs).trans
      (add_le_add_right (mul_le_mul_of_nonneg_left h hrate.le) _)

namespace Demo

/-- Exact rationals. -/
def rationals : Numerics ℚ Unit := .scalars fun _ => none

theorem exact_rationals : rationals.Exact := Numerics.exact_scalars _

def signer : Str := lit "0x01"

/-- A bucket of ten tokens, and one token a second. -/
def limiter : RateLimiter ℚ := ⟨10, .finite 1, ∅⟩

theorem new_limiter : new rationals 10 (.finite 1) = some limiter :=
  (new_eq_some exact_rationals).mpr ⟨by decide, by decide, rfl⟩

/-- The third request read the clock before the second one did. -/
def late : List Request :=
  [⟨signer, 10, 0, by decide⟩, ⟨signer, 10, 10, by decide⟩, ⟨signer, 1, 0, by decide⟩,
    ⟨signer, 10, 10, by decide⟩]

/-- The refill of the ten seconds is granted twice. -/
theorem late_unbounded :
    ¬ Bounded rationals signer [(signer, 0), (signer, 10), (signer, 0), (signer, 10)] := by
  intro h
  have hle := h 10 1 limiter late new_limiter rfl
  exact absurd hle (by decide +kernel)

/-- Readings in order are bounded. -/
theorem sorted_bounded : Bounded rationals signer [(signer, 0), (signer, 10), (signer, 15)] :=
  (rate_bound_iff exact_rationals signer _).mpr (by decide +kernel)

end Demo
end RateLimiter
end DarkPool
end Arcane
