import Arcane.DarkPool.RateBound

/-!
# The wait that the rate limiter advises

`retry_after` in every state that calls of the limiter reach, over exact rationals.

* `reached`: the buckets of such a state were last read at readings of the calls.
* `waits_iff`: the wait is the exact one, unless a key with a bucket asks for more than it holds.
-/

namespace Arcane
namespace DarkPool
namespace RateLimiter

open Text Memory

/-- The calls that write. -/
inductive Call where
  | consume (q : Request)
  | reset (key : Option Str)

/-- The reading that a call brings. -/
def Call.reading : Call → Option ℚ
  | .consume q => some q.now
  | .reset _ => none

/-- The call concerns the bucket of `key`. -/
def Call.Uses (key : Str) : Call → Prop
  | .consume q => q.key = key
  | .reset none => True
  | .reset (some key') => key' = key

section Calls

variable {E : Type} (N : Numerics ℚ E)

/-- The state after a call. -/
def call (limiter : RateLimiter ℚ) : Call → RateLimiter ℚ
  | .consume q => (limiter.consume N q.key q.tokens (.finite q.now)).1
  | .reset key => limiter.reset key

def calls (limiter : RateLimiter ℚ) (cs : List Call) : RateLimiter ℚ := cs.foldl (call N) limiter

/-- The answer at the reading `t` to a request for `tokens` of `key`, after calls that do not use
the key. -/
def Answers (limiter : RateLimiter ℚ) (key : Str) (tokens : ℕ) (t : ℚ) (granted : Bool) : Prop :=
  ∀ cs : List Call, (∀ c ∈ cs, ¬ c.Uses key) →
    ((calls N limiter cs).consume N key tokens (.finite t)).2 = granted

/-- What `retry_after` returns is infinite for more tokens than a bucket holds, and otherwise the
time after which the request is granted and before which it is refused. -/
structure Waits (limiter : RateLimiter ℚ) (key : Str) (tokens : ℕ) (now : ℚ) : Prop where
  infinite : limiter.retryAfter N key tokens (.finite now) = .infinity ↔ limiter.capacity < tokens
  finite : tokens ≤ limiter.capacity → ∃ r,
    limiter.retryAfter N key tokens (.finite now) = .finite r ∧ 0 ≤ r ∧
      Answers N limiter key tokens (now + r) true ∧
      ∀ t, now < t → t < now + r → Answers N limiter key tokens t false

end Calls

section Wait

variable {E : Type} {N : Numerics ℚ E} {limiter : RateLimiter ℚ} {capacity : ℕ} {rate now t : ℚ}
  {buckets : Str → Option (TokenBucket.Bucket ℚ)} {key : Str} {tokens : ℕ}

theorem represents_reset (h : Represents limiter capacity rate buckets) (key : Option Str) :
    Represents (limiter.reset key) capacity rate
      (key.elim (fun _ => none) fun key => Function.update buckets key none) := by
  cases key with
  | none => exact ⟨h.capacity, h.rate, fun _ => rfl⟩
  | some key =>
    refine ⟨h.capacity, h.rate, fun key' => ?_⟩
    rw [reset, Dict.get?_erase, Option.elim_some, Function.update_apply]
    split
    · rfl
    · exact h.buckets key'

/-- What a call does to the buckets. -/
theorem represents_call (hN : N.Exact) (h : Represents limiter capacity rate buckets) (key : Str)
    (c : Call) :
    ∃ buckets', Represents (call N limiter c) capacity rate buckets' ∧
      (¬ c.Uses key → buckets' key = buckets key) ∧
      ∀ b, buckets' key = some b → buckets key = some b ∨ c.reading = some b.last := by
  cases c with
  | consume q =>
    refine ⟨_, represents_consume hN h q.key q.tokens q.now, fun hne => ?_, fun b hb => ?_⟩
    · exact Function.update_of_ne (Ne.symm hne) _ _
    · by_cases hkey : q.key = key
      · rw [hkey, Function.update_self] at hb
        right
        rw [← Option.some.inj hb, TokenBucket.last_take]
        rfl
      · rw [Function.update_of_ne (Ne.symm hkey)] at hb
        exact .inl hb
  | reset key' =>
    refine ⟨_, represents_reset h key', fun hne => ?_, fun b hb => ?_⟩
    · cases key' with
      | none => exact absurd trivial hne
      | some key' => exact Function.update_of_ne (Ne.symm hne) _ _
    · left
      cases key' with
      | none => cases hb
      | some key' =>
        rw [Option.elim_some, Function.update_apply] at hb
        split at hb
        · cases hb
        · exact hb

/-- Calls that do not use a key leave its bucket. -/
theorem represents_calls (hN : N.Exact) (h : Represents limiter capacity rate buckets)
    {cs : List Call} (hcs : ∀ c ∈ cs, ¬ c.Uses key) :
    ∃ buckets', Represents (calls N limiter cs) capacity rate buckets' ∧
      buckets' key = buckets key := by
  induction cs generalizing limiter buckets with
  | nil => exact ⟨buckets, h, rfl⟩
  | cons c cs ih =>
    obtain ⟨hc, hcs⟩ := List.forall_mem_cons.mp hcs
    obtain ⟨buckets₁, h₁, hsame, -⟩ := represents_call hN h key c
    obtain ⟨buckets₂, h₂, hsame₂⟩ := ih h₁ hcs
    exact ⟨buckets₂, h₂, hsame₂.trans (hsame hc)⟩

/-- After calls with readings up to `now`, no bucket was read later. -/
theorem reached (hN : N.Exact) (h : Represents limiter capacity rate buckets) (key : Str) (now : ℚ)
    (hlast : ∀ b, buckets key = some b → b.last ≤ now) {cs : List Call}
    (hcs : ∀ c ∈ cs, ∀ t, c.reading = some t → t ≤ now) :
    ∃ buckets', Represents (calls N limiter cs) capacity rate buckets' ∧
      ∀ b, buckets' key = some b → b.last ≤ now := by
  induction cs generalizing limiter buckets with
  | nil => exact ⟨buckets, h, hlast⟩
  | cons c cs ih =>
    obtain ⟨hc, hcs⟩ := List.forall_mem_cons.mp hcs
    obtain ⟨buckets', h', -, hread⟩ := represents_call hN h key c
    exact ih h' (fun b hb => (hread b hb).elim (hlast b) (hc b.last)) hcs

theorem answers_iff (hN : N.Exact) (h : Represents limiter capacity rate buckets) {granted : Bool} :
    Answers N limiter key tokens t granted ↔
      granted = decide (tokens ≤
        TokenBucket.refilled (capacity : ℚ) rate (found capacity buckets key t) t) := by
  constructor
  · intro hanswers
    have hnone := hanswers [] (by simp)
    rw [calls, List.foldl_nil, consume_eq hN h] at hnone
    exact hnone.symm
  · intro heq cs hcs
    obtain ⟨buckets', h', hsame⟩ := represents_calls hN h hcs
    rw [consume_eq hN h', found, hsame, heq, found]

theorem retryAfter_none (h : Represents limiter capacity rate buckets) (hkey : buckets key = none) :
    limiter.retryAfter N key tokens (.finite now) =
      if tokens ≤ limiter.capacity then N.quot 0 1 else .infinity := by
  rw [retryAfter, h.buckets, hkey]
  rfl

theorem retryAfter_some (hN : N.Exact) (h : Represents limiter capacity rate buckets)
    (hrate : rate ≠ 0) {b : TokenBucket.Bucket ℚ} (hkey : buckets key = some b) :
    limiter.retryAfter N key tokens (.finite now) =
      .finite (TokenBucket.wait (capacity : ℚ) rate b tokens now) := by
  rw [retryAfter, h.buckets, hkey, Option.map_some]
  simp only [refilled_eq hN h, TokenBucket.wait]
  rw [hN.quot_one tokens, hN.quot_zero, h.rate, hN.sub, hN.div _ _ hrate]
  by_cases hle : (tokens : ℚ) ≤ TokenBucket.refilled (capacity : ℚ) rate b now
  · rw [if_pos ((hN.le _ _).mpr hle), if_pos hle]
  · rw [if_neg (mt (hN.le _ _).mp hle), if_neg hle]

end Wait

/-- In every state that calls with readings up to `now` reach, the wait is exact if and only if the
key has no bucket yet or does not ask for more than a bucket holds. -/
theorem waits_iff {E : Type} {N : Numerics ℚ E} (hN : N.Exact) {capacity : ℕ} {rate : ℚ}
    {limiter : RateLimiter ℚ} (hnew : new N capacity (.finite rate) = some limiter)
    (cs : List Call) {now : ℚ} (hcs : ∀ c ∈ cs, ∀ t, c.reading = some t → t ≤ now)
    (key : Str) (tokens : ℕ) :
    Waits N (calls N limiter cs) key tokens now ↔
      (calls N limiter cs).buckets.get? key = none ∨ tokens ≤ capacity := by
  obtain ⟨-, hrate, rfl⟩ := (new_eq_some hN).mp hnew
  obtain ⟨buckets, h, hlast⟩ := reached hN represents_new key now (fun b hb => by cases hb) hcs
  rw [h.buckets, Option.map_eq_none_iff]
  cases hkey : buckets key with
  | none =>
    refine iff_of_true ⟨?_, fun hle => ⟨0, ?_, le_rfl, ?_, fun t hnow ht => ?_⟩⟩ (.inl rfl)
    · rw [retryAfter_none h hkey, hN.quot_zero]
      split
      · next hle => exact iff_of_false (fun h => by cases h) (not_lt.mpr hle)
      · next hlt => exact iff_of_true rfl (not_le.mp hlt)
    · rw [retryAfter_none h hkey, if_pos hle, hN.quot_zero]
    · rw [h.capacity] at hle
      rw [answers_iff hN h, found, hkey, Option.getD_none, refilled_new]
      exact (decide_eq_true (Nat.cast_le.mpr hle)).symm
    · rw [add_zero] at ht
      exact absurd hnow (not_lt.mpr ht.le)
  | some b =>
    have hretry : (calls N ⟨capacity, .finite rate, ∅⟩ cs).retryAfter N key tokens (.finite now) =
        .finite (TokenBucket.wait (capacity : ℚ) rate b tokens now) :=
      retryAfter_some hN h hrate.ne' hkey
    have hfound (t : ℚ) : found capacity buckets key t = b := by
      rw [found, hkey, Option.getD_some]
    constructor
    · intro hwaits
      right
      by_contra hlt
      have hinfinite := hwaits.infinite.mpr (by rw [h.capacity]; exact not_le.mp hlt)
      rw [hretry] at hinfinite
      cases hinfinite
    · rintro (hnone | hle)
      · cases hnone
      refine ⟨?_, fun _ => ⟨_, hretry, TokenBucket.wait_nonneg hrate _ _, ?_, fun t hnow ht => ?_⟩⟩
      · rw [hretry, h.capacity]
        exact iff_of_false (fun h => by cases h) (not_lt.mpr hle)
      · rw [answers_iff hN h, hfound]
        exact (decide_eq_true (TokenBucket.le_refilled_wait hrate (hlast b hkey)
          (Nat.cast_le.mpr hle))).symm
      · rw [answers_iff hN h, hfound]
        exact (decide_eq_false (not_le.mpr (TokenBucket.refilled_lt_of_lt_wait hrate
          (hlast b hkey) hnow.le ht))).symm

namespace Demo

/-- The signer has taken one of its ten tokens. -/
def used : RateLimiter ℚ := calls rationals limiter [.consume ⟨signer, 1, 0, Nat.one_pos⟩]

theorem used_reading : ∀ c ∈ [Call.consume ⟨signer, 1, 0, Nat.one_pos⟩], ∀ t,
    c.reading = some t → t ≤ 0 :=
  List.forall_mem_singleton.mpr fun _ ht => (Option.some.inj ht).ge

/-- It is told to wait two seconds for eleven tokens. -/
theorem oversized_waits : used.retryAfter rationals signer 11 (.finite 0) = .finite 2 ∧
    ¬ Waits rationals used signer 11 0 := by
  have h : Represents used 10 1
      (Function.update (fun _ => none) signer (some (TokenBucket.take 10 1 ⟨10, 0⟩ 1 0))) :=
    represents_consume exact_rationals represents_new signer 1 0
  have hretry : used.retryAfter rationals signer 11 (.finite 0) = .finite 2 := by
    rw [retryAfter_some exact_rationals h one_ne_zero (Function.update_self ..)]
    exact congrArg Double.finite (by decide +kernel)
  refine ⟨hretry, fun hwaits => ?_⟩
  have hinfinite := hwaits.infinite.mpr (by decide)
  rw [hretry] at hinfinite
  cases hinfinite

/-- The wait for ten tokens is exact. -/
theorem full_waits : Waits rationals used signer 10 0 :=
  (waits_iff exact_rationals new_limiter _ used_reading signer 10).mpr (.inr le_rfl)

end Demo
end RateLimiter
end DarkPool
end Arcane
