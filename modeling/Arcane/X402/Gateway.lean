import Arcane.X402.Types
import Mathlib.Algebra.Ring.Int.Defs

/-!
# The settler

`scripts/x402/circle_gateway.ts`: `CircleGatewaySettler.settle`. Without a Gateway key a batch is
recorded and returned; with one, no batch that holds an item is settled (`settle_error_iff`).
-/

namespace Arcane
namespace X402

open Text

/-- `totalValueOf`. -/
def totalValueOf (items : List PaymentAuthorization) : ℤ :=
  (items.map fun it => it.authorization.value).sum

structure CircleGatewaySettler where
  gatewayPrivateKey : Option Str
deriving DecidableEq

namespace CircleGatewaySettler

def canBroadcast (c : CircleGatewaySettler) : Bool := c.gatewayPrivateKey.isSome

/-- The domain name of authorizations that the Gateway can settle. -/
def batchedDomain : Str := lit "GatewayWalletBatched"

/-- The items that were signed against the Gateway's domain. -/
def eligible (items : List PaymentAuthorization) : List PaymentAuthorization :=
  items.filter fun it => it.domainName = batchedDomain

def directUsdc (direct total : ℕ) : X402Error :=
  .gatewaySettlement
    (s!"cannot broadcast: {direct} of {total} authorizations were signed against " ++
      "direct USDC (not GatewayWallet). Either disable broadcast (no GATEWAY_PRIVATE_KEY) or " ++
      "extend the resource server to advertise extra.name=\"GatewayWalletBatched\".")

def notWired : X402Error :=
  .gatewaySettlement ("broadcast-on-flush is not yet wired in Slice 5C: pre-signed " ++
    "authorizations cannot be replayed through GatewayClient.pay() without their resource URL. " ++
    "Use settleViaSdk(items, urls) when wiring the demo via the SDK's full 402 path.")

def settle (c : CircleGatewaySettler) (items : List PaymentAuthorization) (reason : Reason)
    (flushedAt : ℤ) : Except X402Error BatchedSettlement :=
  if items.isEmpty then
    .ok { items := [], totalValue := 0, reason, broadcast := false, flushedAt }
  else if !c.canBroadcast then
    .ok { items, totalValue := totalValueOf items, reason, broadcast := false, flushedAt }
  else if (eligible items).length ≠ items.length then
    .error (directUsdc (items.length - (eligible items).length) items.length)
  else
    .error notWired

variable {c : CircleGatewaySettler} {items : List PaymentAuthorization} {reason : Reason}
  {flushedAt : ℤ} {b : BatchedSettlement}

/-- A settlement is one of the batch it was given. -/
theorem settle_items (h : c.settle items reason flushedAt = .ok b) :
    b.items = items ∧ b.totalValue = totalValueOf items ∧ b.reason = reason := by
  unfold settle at h
  split at h
  · next he =>
    obtain rfl := List.isEmpty_iff.mp he
    cases h
    exact ⟨rfl, rfl, rfl⟩
  · split at h
    · cases h
      exact ⟨rfl, rfl, rfl⟩
    · split at h <;> cases h

/-- A batch is refused when it holds an item and a Gateway key is configured. -/
theorem settle_error_iff :
    (∃ e, c.settle items reason flushedAt = .error e) ↔ items ≠ [] ∧ c.canBroadcast = true := by
  unfold settle
  rw [← List.isEmpty_eq_false_iff]
  cases items.isEmpty <;> cases c.canBroadcast <;> simp
  split <;> exact ⟨_, rfl⟩

end CircleGatewaySettler

end X402
end Arcane
