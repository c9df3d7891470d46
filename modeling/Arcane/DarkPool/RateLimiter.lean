import Arcane.Memory.Service

/-!
# The rate limiter

`agents/rate_limiter.py`: a bucket of tokens for each signer, which a reading of the clock refills.
-/

namespace Arcane
namespace DarkPool

open Text Memory

structure Bucket (F : Type) where
  tokens : Double F
  lastRefill : Double F

structure RateLimiter (F : Type) where
  capacity : ℕ
  refillPerSecond : Double F
  buckets : Dict Str (Bucket F)

namespace RateLimiter

variable {F E : Type} (N : Numerics F E) (limiter : RateLimiter F)

/-- `min(float(self.capacity), b.tokens + elapsed * self.refill_per_second)`. -/
def refilled (b : Bucket F) (now : Double F) : Double F :=
  let gone := N.sub now b.lastRefill
  let elapsed := if N.lt (N.quot 0 1) gone then gone else N.quot 0 1
  let tokens := N.add b.tokens (N.mul elapsed limiter.refillPerSecond)
  let full := N.quot limiter.capacity 1
  if N.lt tokens full then tokens else full

/-- `_consume_locked`. -/
def consume (key : Str) (tokens : ℕ) (now : Double F) : RateLimiter F × Bool :=
  let available :=
    match limiter.buckets.get? key with
    | none => N.quot limiter.capacity 1
    | some b => limiter.refilled N b now
  let granted := N.le (N.quot tokens 1) available
  let left := if granted then N.sub available (N.quot tokens 1) else available
  ({ limiter with buckets := limiter.buckets.set key ⟨left, now⟩ }, granted)

/-- `_retry_after_locked`. -/
def retryAfter (key : Str) (tokens : ℕ) (now : Double F) : Double F :=
  match limiter.buckets.get? key with
  | none => if tokens ≤ limiter.capacity then N.quot 0 1 else .infinity
  | some b =>
    let projected := limiter.refilled N b now
    if N.le (N.quot tokens 1) projected then N.quot 0 1
    else N.div (N.sub (N.quot tokens 1) projected) limiter.refillPerSecond

/-- `reset`: one key, or all of them. -/
def reset : Option Str → RateLimiter F
  | none => { limiter with buckets := ∅ }
  | some key => { limiter with buckets := limiter.buckets.erase key }

end RateLimiter
end DarkPool
end Arcane
