import Arcane.Constitution.DriftOrder
import Arcane.Constitution.Agreement
import Mathlib.Algebra.Order.Field.Rat
import Mathlib.Algebra.Order.Monoid.WithTop
import Mathlib.Algebra.Order.Field.Basic
import Mathlib.Tactic.NormNum

/-!
# The caps that perp adapters are asked about

What the validator lets through of GMX V2 and Drift orders, by their exact leverage and notional.

* `decode_order`: the descriptor of a GMX V2 order; its product does not overflow.
* `leverage_lt`, `notional_lt`: what passes a rule with these descriptors.
* `caps_sound_iff`: the caps hold unless the order has a zero where it has its collateral or price.
-/

namespace Arcane
namespace Constitution

open Text Evm Abi Trace

namespace Adapter

namespace GmxV2

/-- The calldata that the adapter recognises as an order. -/
def order (data : Bytes) : Option CreateOrderParams :=
  if createOrderSelector <+: data then decodeParams (data.drop 4) else none

/-- MarketIncrease or LimitIncrease. -/
def CreateOrderParams.Increases (p : CreateOrderParams) : Prop := p.orderType = 2 ∨ p.orderType = 3

def CreateOrderParams.sizeUsdc (p : CreateOrderParams) : ℕ := p.numbers.sizeDeltaUsd / usdToUsdc

def CreateOrderParams.collateral (p : CreateOrderParams) : ℕ :=
  p.numbers.initialCollateralDeltaAmount

/-- The descriptor of an order. -/
def descriptor (p : CreateOrderParams) : Decoded where
  protocolTarget := gmxV2ExchangeRouter
  sizeUsdc := p.sizeUsdc
  leverageBps := p.sizeUsdc * 10000 / p.collateral
  market := p.addresses.market
  isReduceOnly := 4 ≤ p.orderType && p.orderType ≤ 6

/-- The exact leverage in basis points; there is no bound to it without collateral. -/
def exactLeverage (sizeUsdc collateral : ℕ) : WithTop ℚ :=
  if collateral = 0 then ⊤ else ((sizeUsdc * 10000 / collateral : ℚ) : WithTop ℚ)

end GmxV2

namespace Drift

/-- The base amount and the price of the order that the adapter recognises in the calldata. -/
def order (data : Bytes) : Option (ℕ × ℕ) :=
  if discriminatorFull <+: data ∧ minLen ≤ data.length then
    some (ofBytesLE (slice data 12 8), ofBytesLE (slice data 20 8))
  else none

/-- The exact notional; there is no bound to it without a price limit. -/
def exactNotional (baseAmount price : ℕ) : WithTop ℚ :=
  if price = 0 then ⊤ else ((baseAmount * price / 10 ^ 9 : ℚ) : WithTop ℚ)

end Drift

end Adapter

open Adapter

/-- A MAX_LEVERAGE rule of `maxBps` that asks the GMX V2 adapter. -/
structure Rule.CapsLeverage (adapters : Adapters) (r : Rule) (maxBps : ℕ) : Prop where
  kind : r.kind = 0
  uses : r.Uses adapters .gmxV2
  params : decodeUint r.params = some maxBps

/-- A MAX_TRADE_SIZE rule of `max` that asks the Drift adapter. -/
structure Rule.CapsTradeSize (adapters : Adapters) (r : Rule) (max : ℕ) : Prop where
  kind : r.kind = 1
  uses : r.Uses adapters .drift
  params : decodeUint r.params = some max

/-- The rules cap what their adapters recognise in the calldata. -/
structure CapsSound (adapters : Adapters) (rules : List Rule) (data : Bytes) : Prop where
  leverage : ∀ r ∈ rules, ∀ maxBps, r.CapsLeverage adapters maxBps →
    ∀ p, GmxV2.order data = some p → p.Increases → 0 < p.sizeUsdc →
      GmxV2.exactLeverage p.sizeUsdc p.collateral < ((maxBps + 1 : ℚ) : WithTop ℚ)
  tradeSize : ∀ r ∈ rules, ∀ max, r.CapsTradeSize adapters max →
    ∀ baseAmount price, Drift.order data = some (baseAmount, price) → baseAmount ≠ 0 →
      Drift.exactNotional baseAmount price < ((max + 1 : ℚ) : WithTop ℚ)

/-- No capped order has a zero for its collateral, or for its price. -/
structure FieldsNonzero (adapters : Adapters) (rules : List Rule) (data : Bytes) : Prop where
  collateral : ∀ r ∈ rules, ∀ maxBps, r.CapsLeverage adapters maxBps →
    ∀ p, GmxV2.order data = some p → p.Increases → 0 < p.sizeUsdc → p.collateral ≠ 0
  price : ∀ r ∈ rules, ∀ max, r.CapsTradeSize adapters max →
    ∀ baseAmount price, Drift.order data = some (baseAmount, price) → baseAmount ≠ 0 → price ≠ 0

section Descriptors

variable {data : Bytes} {p : GmxV2.CreateOrderParams} {baseAmount price : ℕ}

theorem sizeDeltaUsd_lt {b : Bytes} {i : ℕ} (h : GmxV2.paramsAt b i = some p) :
    p.numbers.sizeDeltaUsd < 2 ^ 256 := by
  simp only [GmxV2.paramsAt, GmxV2.numbersAt, Option.bind_eq_bind, Option.bind_eq_some_iff,
    Option.pure_def, Option.some.injEq] at h
  obtain ⟨-, -, -, ⟨sizeDeltaUsd, hsize, -, -, -, -, -, -, -, -, -, -, -, -, -, -, rfl⟩, -, -, -, -,
    -, -, -, -, -, -, -, -, -, -, rfl⟩ := h
  exact wordAt_lt hsize

/-- The product of the leverage estimate does not overflow. -/
theorem leverageBps_eq (h : GmxV2.order data = some p) :
    GmxV2.leverageBps p.sizeUsdc p.collateral = .ok (p.sizeUsdc * 10000 / p.collateral) := by
  rw [GmxV2.order] at h
  split_ifs at h with hmark
  obtain ⟨i, -, hread⟩ := Option.bind_eq_some_iff.mp h
  have hlt : p.sizeUsdc * 10000 < 2 ^ 256 := by
    have hsize := sizeDeltaUsd_lt hread
    rw [GmxV2.CreateOrderParams.sizeUsdc, GmxV2.usdToUsdc]
    omega
  rw [GmxV2.leverageBps]
  split_ifs with hpos
  · rw [U256.mul, if_pos hlt]
    rfl
  · rw [Nat.eq_zero_of_not_pos hpos, Nat.div_zero]
    rfl

theorem length_of_decodeParams {body : Bytes} (h : GmxV2.decodeParams body = some p) :
    32 ≤ body.length := by
  obtain ⟨i, hi, -⟩ := Option.bind_eq_some_iff.mp h
  obtain ⟨w, hw, -⟩ := Option.bind_eq_some_iff.mp hi
  by_contra hshort
  rw [wordAt, if_neg (by omega)] at hw
  cases hw

theorem gmxV2_decode_order (h : GmxV2.order data = some p) :
    Kind.gmxV2.decode data = .ok (GmxV2.descriptor p) := by
  have hleverage := leverageBps_eq h
  rw [GmxV2.order] at h
  split_ifs at h with hmark
  have hlen := length_of_decodeParams h
  rw [List.length_drop] at hlen
  have hshort : (revertIf (data.length < 4) (.notApplicable [0, 0, 0, 0]) :
      Tx Adapter.Error Unit) = .ok () := revertIf_neg (by omega)
  have hlong : (revertIf (data.length < 4 + 32) .malformed : Tx Adapter.Error Unit) = .ok () :=
    revertIf_neg (by omega)
  have hsel : slice data 0 4 = GmxV2.createOrderSelector := by
    obtain ⟨rest, rfl⟩ := hmark
    exact slice_left rfl
  have hread : decodedOr (GmxV2.decodeParams (data.drop 4)) = .ok p := by
    rw [h]
    rfl
  rw [GmxV2.CreateOrderParams.sizeUsdc, GmxV2.CreateOrderParams.collateral] at hleverage
  simp only [Kind.decode, GmxV2.decode, hshort, hsel, revertIf_neg (not_not.mpr rfl), hlong,
    ok_bind, hread, hleverage]
  rfl

theorem drift_decode_order (h : Drift.order data = some (baseAmount, price)) :
    ∃ dec, Kind.drift.decode data = .ok dec ∧ dec.sizeUsdc = baseAmount * price / 10 ^ 9 := by
  rw [Drift.order] at h
  split_ifs at h with hmark
  cases h
  exact ⟨_, Drift.decode_eq hmark.2 hmark.1, rfl⟩

end Descriptors

section Rules

variable {adapters : Adapters} {r : Rule} {c : Execution} {dec : Decoded} {kind : Kind} {max : ℕ}

theorem tryDecode_decoded {data : Bytes} (huses : r.Uses adapters kind)
    (hdec : kind.decode data = .ok dec) : tryDecode adapters r.adapter data = .ok dec := by
  have hanswer : adapters r.adapter data = .decoded dec := by
    rw [huses.answer, hdec]
    rfl
  simp only [tryDecode, hanswer]

/-- A rule on the leverage passes over a leverage of zero. -/
theorem leverage_le (hkind : r.kind = 0) (hdec : tryDecode adapters r.adapter c.callData = .ok dec)
    (hparams : decodeUint r.params = some max)
    (h : Validator.enforce adapters r c = .ok ()) : dec.leverageBps ≤ max := by
  simp only [Validator.enforce, if_pos hkind, Validator.checkMaxLeverage, bind_ok,
    checkMaxLeverage, Validator.tryDecode, hdec, Except.ok.injEq, exists_eq_left'] at h
  obtain ⟨-, -, h⟩ := h
  split_ifs at h with hzero
  · rw [hzero]
    exact Nat.zero_le max
  · simpa [hparams, decoded_ok] using h

theorem tradeSize_le (hkind : r.kind = 1) (hne : r.adapter ≠ 0)
    (hdec : tryDecode adapters r.adapter c.callData = .ok dec)
    (hparams : decodeUint r.params = some max)
    (h : Validator.enforce adapters r c = .ok ()) : dec.sizeUsdc ≤ max := by
  have hkind₀ : r.kind ≠ 0 := by
    rw [hkind]
    decide
  simp only [Validator.enforce, if_neg hkind₀, if_pos hkind, Validator.checkMaxTradeSize, bind_ok,
    decoded_ok, hparams, Option.some.injEq, exists_eq_left', checkAdapterSize, if_neg hne,
    Validator.tryDecode, hdec, Except.ok.injEq, require_ok] at h
  obtain ⟨-, -, -, h, -⟩ := h
  exact h

end Rules

/-- A quotient that is rounded down to at most `n` is below `n + 1`. -/
theorem div_lt_of_le {a b n : ℕ} (hb : 0 < b) (h : a / b ≤ n) : (a / b : ℚ) < n + 1 := by
  have hlt : a < (n + 1) * b := (Nat.div_lt_iff_lt_mul hb).mp (Nat.lt_succ_of_le h)
  rw [div_lt_iff₀ (by exact_mod_cast hb)]
  exact_mod_cast hlt

theorem exactLeverage_lt {sizeUsdc collateral maxBps : ℕ} (hne : collateral ≠ 0)
    (h : sizeUsdc * 10000 / collateral ≤ maxBps) :
    GmxV2.exactLeverage sizeUsdc collateral < ((maxBps + 1 : ℚ) : WithTop ℚ) := by
  rw [GmxV2.exactLeverage, if_neg hne, WithTop.coe_lt_coe]
  exact_mod_cast div_lt_of_le (Nat.pos_of_ne_zero hne) h

theorem exactNotional_lt {baseAmount price max : ℕ} (hne : price ≠ 0)
    (h : baseAmount * price / 10 ^ 9 ≤ max) :
    Drift.exactNotional baseAmount price < ((max + 1 : ℚ) : WithTop ℚ) := by
  rw [Drift.exactNotional, if_neg hne, WithTop.coe_lt_coe]
  exact_mod_cast div_lt_of_le (by decide) h

/-- Of a call that the validator accepts, the exact leverage and notional are within the caps of
their rules if and only if no order that they cap has a zero for its collateral or its price. -/
theorem caps_sound_iff {adapters : Adapters} {registry : Registry.State} {s : Validator.State}
    {m : Msg} {account : Address} {callData : Bytes} {c : Execution}
    (hok : Validator.validateUserOp adapters registry s m account callData = .ok ())
    (hread : Validator.decodeCall callData = .ok c) :
    CapsSound adapters (registry.rules (s.constitutionOf account)) c.callData ↔
      FieldsNonzero adapters (registry.rules (s.constitutionOf account)) c.callData := by
  have hrules : ∀ r ∈ registry.rules (s.constitutionOf account),
      Validator.enforce adapters r c = .ok () := by
    simp only [Validator.validateUserOp, bind_ok, external_ok, getConstitution_ok, hread,
      Except.ok.injEq, forM_ok] at hok
    obtain ⟨-, -, -, -, rules, ⟨-, rfl⟩, c, rfl, hrules⟩ := hok
    exact hrules
  constructor
  · refine fun h => ⟨fun r hr maxBps hcap p hp hinc hsize hzero => ?_,
      fun r hr max hcap baseAmount price ho hbase hzero => ?_⟩
    · have hlt := h.leverage r hr maxBps hcap p hp hinc hsize
      rw [GmxV2.exactLeverage, if_pos hzero] at hlt
      exact not_top_lt hlt
    · have hlt := h.tradeSize r hr max hcap baseAmount price ho hbase
      rw [Drift.exactNotional, if_pos hzero] at hlt
      exact not_top_lt hlt
  · refine fun h => ⟨fun r hr maxBps hcap p hp hinc hsize => ?_,
      fun r hr max hcap baseAmount price ho hbase => ?_⟩
    · have hdec := tryDecode_decoded hcap.uses (gmxV2_decode_order hp)
      exact exactLeverage_lt (h.collateral r hr maxBps hcap p hp hinc hsize)
        (leverage_le hcap.kind hdec hcap.params (hrules r hr))
    · obtain ⟨dec, hdecode, hsize⟩ := drift_decode_order ho
      have hdec := tryDecode_decoded hcap.uses hdecode
      have hle := tradeSize_le hcap.kind hcap.uses.adapter_ne hdec hcap.params (hrules r hr)
      exact exactNotional_lt (h.price r hr max hcap baseAmount price ho hbase) (hsize ▸ hle)

namespace AdapterCaps.Demo

/-- At most ten times the collateral on GMX V2, and at most a thousand USDC on Drift. -/
def rules : List Rule := [⟨0, word 100000, 0x6⟩, ⟨1, word (10 ^ 9), 0xd⟩]

/-- The hash of that constitution; what else is hashed is the same. -/
def keccak256 (b : Bytes) : Bytes32 :=
  if b = word 32 ++ array (rules.map Rule.encode) then
    0x835ab59a805f7ad6baf98e8f0a84a3409ac8dd14b7e0dde99ec4fde7b4a2fca1
  else 1

def adapters : Adapters := fun a data =>
  if a = 0x6 then answer (Kind.gmxV2.decode data)
  else if a = 0xd then answer (Kind.drift.decode data)
  else .invalid

/-- The account has the constitution in the three modules. -/
def state : State := installed keccak256 rules 0xacc

/-- A message of the account. -/
def self : Msg := .of 0xacc 0

/-- A MarketIncrease order of `sizeUsdc` with `collateral`, of one market. -/
def createOrder (sizeUsdc collateral : ℕ) : Bytes :=
  let addresses := [0, 0, 0, 0, 0x3a, 0, 32 * 7, 0]
  let numbers := [sizeUsdc * 10 ^ 24, collateral, 0, 0, 0, 0, 0, 0]
  let head := 32 * 16 :: (numbers ++ [2, 0, 1, 0, 0, 0, 32 * 24])
  GmxV2.createOrderSelector ++ (32 :: (head ++ (addresses ++ [0]))).flatMap word

/-- A GMX V2 order of the calldata. -/
def gmxCall (sizeUsdc collateral : ℕ) : Execution := ⟨0x7c, 0, createOrder sizeUsdc collateral⟩

/-- A market order on Drift, with no price limit. -/
def driftCall : Execution :=
  ⟨0xd1, 0, Drift.placePerpOrder ⟨0, 1, 0, 0, 1000000000000000, 0, 0, false⟩ []⟩

/-- The validator's answer to the call. -/
def validate (c : Execution) : Tx Error Unit :=
  Validator.validateUserOp adapters state.registry state.validator self 0xacc (executeData c)

theorem capsLeverage : Rule.CapsLeverage adapters ⟨0, word 100000, 0x6⟩ 100000 :=
  ⟨rfl, ⟨by decide, fun _ => rfl⟩, by decide⟩

theorem capsTradeSize : Rule.CapsTradeSize adapters ⟨1, word (10 ^ 9), 0xd⟩ (10 ^ 9) :=
  ⟨rfl, ⟨by decide, fun _ => rfl⟩, by decide⟩

theorem rules_state :
    state.registry.rules (state.validator.constitutionOf 0xacc) = rules := by
  have hhash (hash : Bytes32) :
      Function.update (fun _ => (0 : Bytes32)) (0xacc : Address) hash 0xacc = hash :=
    Function.update_self ..
  simp only [state, installed, hhash, rules_holding]

/-- The order that the calldata encodes. -/
theorem order_createOrder (sizeUsdc collateral : ℕ)
    (h : (GmxV2.order (createOrder sizeUsdc collateral)).any
      (fun p => p.orderType = 2 ∧ p.sizeUsdc = sizeUsdc ∧ p.collateral = collateral)) :
    ∃ p, GmxV2.order (createOrder sizeUsdc collateral) = some p ∧
      p.Increases ∧ p.sizeUsdc = sizeUsdc ∧ p.collateral = collateral := by
  obtain ⟨p, hp, hfields⟩ := (Option.any_eq_true _ _).mp h
  obtain ⟨htype, hsize, hcollateral⟩ := of_decide_eq_true hfields
  exact ⟨p, hp, .inl htype, hsize, hcollateral⟩

/-- The validator accepts an order of a million USDC without collateral, and one on Drift without
a price. -/
theorem caps_unsound : ∃ tr, Run (Step keccak256) .initial tr state ∧
    ∀ c ∈ [gmxCall (10 ^ 12) 0, driftCall], Validator.decodeCall (executeData c) = .ok c ∧
      validate c = .ok () ∧
      ¬ CapsSound adapters (state.registry.rules (state.validator.constitutionOf 0xacc))
        c.callData := by
  have haccepted : Accepted rules := by
    refine ⟨by decide,
      List.forall_mem_cons.mpr ⟨fun _ => ?_, List.forall_mem_singleton.mpr fun _ => ?_⟩⟩
    · exact capsLeverage.uses.adapter_ne
    · exact capsTradeSize.uses.adapter_ne
  obtain ⟨tr, h⟩ := run_installed keccak256 haccepted self
  refine ⟨tr, h, List.forall_mem_cons.mpr ⟨⟨by decide +kernel, by decide +kernel, fun hsound => ?_⟩,
    List.forall_mem_singleton.mpr ⟨by decide +kernel, by decide +kernel, fun hsound => ?_⟩⟩⟩
  · obtain ⟨p, hp, hinc, hsize, hzero⟩ := order_createOrder (10 ^ 12) 0 (by decide +kernel)
    rw [rules_state] at hsound
    have hlt := hsound.leverage _ List.mem_cons_self _ capsLeverage p hp hinc (by omega)
    rw [GmxV2.exactLeverage, if_pos hzero] at hlt
    exact not_top_lt hlt
  · have horder : Drift.order driftCall.callData = some (10 ^ 15, 0) := by decide
    rw [rules_state] at hsound
    have hlt := hsound.tradeSize _ (List.mem_cons_of_mem _ List.mem_cons_self) _ capsTradeSize _ _
      horder (by decide)
    rw [Drift.exactNotional, if_pos rfl] at hlt
    exact not_top_lt hlt

/-- Of an order with collateral, the caps hold. -/
theorem collateral_sound :
    CapsSound adapters (state.registry.rules (state.validator.constitutionOf 0xacc))
      (gmxCall (10 ^ 9) (10 ^ 9)).callData := by
  have hread : Validator.decodeCall (executeData (gmxCall (10 ^ 9) (10 ^ 9))) =
    .ok (gmxCall (10 ^ 9) (10 ^ 9)) := by decide +kernel
  have hok : validate (gmxCall (10 ^ 9) (10 ^ 9)) = .ok () := by decide +kernel
  refine (caps_sound_iff hok hread).mpr ⟨fun _ _ _ _ p hp _ _ => ?_, fun _ _ _ _ _ _ ho => ?_⟩
  · obtain ⟨p', hp', -, -, hcollateral⟩ :=
      order_createOrder (10 ^ 9) (10 ^ 9) (by decide +kernel)
    obtain rfl := Option.some.inj (hp.symm.trans hp')
    rw [hcollateral]
    decide
  · have hnone : Drift.order (gmxCall (10 ^ 9) (10 ^ 9)).callData = none := by decide
    cases hnone.symm.trans ho

end AdapterCaps.Demo

end Constitution
end Arcane
