import Arcane.Constitution.Agreement
import Arcane.Lib.Decimal

/-!
# Bob's rules and his forecast

`agents/bob.py`: the rules as Python dicts, their encoding for the registry (`rules_to_solidity`),
the transfer that Bob proposes, and the rule that he expects it to fail (`_classify_intent`).
`none` stands for an exception.

* `Unicode`, `Builtins`, `EthAbi`: the parts of Python's standard library and of `eth_abi` that the
  code uses.
-/

namespace Arcane
namespace Constitution

open Text Evm Abi

/-- The rule loop of `validateUserOp`, on the calldata of a user operation. -/
def Validator.ruleLoop (adapters : Adapters) (rules : List Rule) (callData : Bytes) :
    Tx Error Unit := do
  let c ← Validator.decodeCall callData
  rules.forM fun r => Validator.enforce adapters r c

namespace Bob

/-- An address among the fields of a rule. -/
inductive AddressArg where
  | text (s : Str)
  | raw (b : Bytes)
  deriving DecidableEq

/-- A list of Python, which has at most `sys.maxsize` items. -/
structure PyList (α : Type) where
  items : List α
  length_lt : items.length < 2 ^ 63

def PyList.nil {α : Type} : PyList α := ⟨[], Nat.two_pow_pos 63⟩

/-- `str(x)` and `int(x)` of what a rule holds as a number. -/
structure Builtins (V : Type) where
  str : V → Str
  int : V → Option ℤ

/-- The address that `eth_abi` encodes. A text is one in hexadecimal digits. -/
structure EthAbi where
  address : AddressArg → Option Address
  address_text : ∀ s a, address (.text s) = some a →
    ∃ digits, digits.length = 40 ∧ readDigits 16 hexVal digits = some a.val.toNat ∧
      (s = digits ∨ s = lit "0x" ++ digits ∨ s = lit "0X" ++ digits)

/-- The fields of a rule that are read; each but `kind` may be absent. -/
structure RuleDict (V : Type) where
  kind : Str
  maxLeverageBps : Option V
  maxUsdc : Option V
  venues : Option (PyList AddressArg)
  whitelist : Option (PyList AddressArg)
  /-- `None` counts as absent. -/
  maxChildBudgetUnits : Option V
  maxChildBudgetUsdc : Option V
  paramsBytes : Option Bytes
  adapter : Option AddressArg

section Source

variable {V : Type} (U : Unicode) (py : Builtins V) (abi : EthAbi)

def usdcDecimals : ℕ := 6

/-- `_usdc_to_units`, of the text of the amount. -/
def usdcToUnits (amount : Str) : Option ℤ := do
  let x ← Decimal.ofText U amount
  return (← x.mul (10 ^ usdcDecimals)).toIntegral

/-- `abi_encode(["uint256"], [n])`. -/
def encodeUint (n : ℤ) : Option Bytes :=
  if 0 ≤ n ∧ n < 2 ^ 256 then some (word n.toNat) else none

/-- `abi_encode(["address"], [a])`. -/
def encodeAddress (a : AddressArg) : Option Bytes := (abi.address a).map addressWord

/-- `abi_encode(["address[]"], [l])`. -/
def encodeAddresses (l : PyList AddressArg) : Option Bytes := do
  return word 32 ++ addresses (← l.items.mapM abi.address)

/-- `_KIND_STR_TO_INT`. -/
def kindStrToInt (kind : Str) : Option UInt8 :=
  if kind = lit "MAX_LEVERAGE" then some 0
  else if kind = lit "MAX_TRADE_SIZE" then some 1
  else if kind = lit "VENUE_BLACKLIST" then some 2
  else if kind = lit "NO_UNAUDITED_CONTRACTS" then some 3
  else if kind = lit "SUBDELEGATION_BOUND" then some 4
  else if kind = lit "CUSTOM" then some 255
  else none

/-- `_encode_rule_params`. -/
def encodeRuleParams (kind : Str) (rule : RuleDict V) : Option Bytes :=
  if kind = lit "MAX_LEVERAGE" then do
    encodeUint (← (rule.maxLeverageBps.map py.int).getD (some 20000))
  else if kind = lit "MAX_TRADE_SIZE" then do
    encodeUint (← usdcToUnits U ((rule.maxUsdc.map py.str).getD (lit "1.0")))
  else if kind = lit "VENUE_BLACKLIST" then encodeAddresses abi (rule.venues.getD .nil)
  else if kind = lit "NO_UNAUDITED_CONTRACTS" then encodeAddresses abi (rule.whitelist.getD .nil)
  else if kind = lit "SUBDELEGATION_BOUND" then do
    let maxUnits ← match rule.maxChildBudgetUnits with
      | some units => py.int units
      | none => usdcToUnits U ((rule.maxChildBudgetUsdc.map py.str).getD (lit "0.5"))
    encodeUint maxUnits
  else if kind = lit "CUSTOM" then some (rule.paramsBytes.getD [])
  else none

def zeroAdapter : AddressArg := .text (lit "0x" ++ List.replicate 40 (ofChar '0'))

/-- `rules_to_solidity`, of one rule. -/
def ruleToSolidity (r : RuleDict V) : Option (UInt8 × Bytes × AddressArg) := do
  let kindInt ← kindStrToInt r.kind
  let params ← encodeRuleParams U py abi r.kind r
  return (kindInt, params, r.adapter.getD zeroAdapter)

def rulesToSolidity (rules : List (RuleDict V)) : Option (List (UInt8 × Bytes × AddressArg)) :=
  rules.mapM (ruleToSolidity U py abi)

/-- The rule of the contract that a tuple encodes. -/
def ofTuple (t : UInt8 × Bytes × AddressArg) : Option Rule :=
  (abi.address t.2.2).map fun adapter => ⟨t.1, t.2.1, adapter⟩

/-- The rules that are sent to the registry. -/
def encodedRules (rules : List (RuleDict V)) : Option (List Rule) := do
  (← rulesToSolidity U py abi rules).mapM (ofTuple abi)

/-- `v.lower()`. -/
def AddressArg.lower : AddressArg → AddressArg
  | .text s => .text (U.lower s)
  | .raw b => .raw (b.map fun x => if 65 ≤ x.toNat ∧ x.toNat ≤ 90 then x + 32 else x)

/-- `_classify_intent`. -/
def classifyIntent (target : Str) (value : ℤ) (innerSelector : Bytes) (amountUnits : ℤ) :
    List (RuleDict V) → Option Str
  | [] => some (lit "OK")
  | r :: rules =>
    if r.kind = lit "MAX_TRADE_SIZE" then do
      let cap ← usdcToUnits U ((r.maxUsdc.map py.str).getD (lit "0.0"))
      if value > cap then return lit "MAX_TRADE_SIZE"
      else if innerSelector = transferSelector ∧ amountUnits > cap then return lit "MAX_TRADE_SIZE"
      else classifyIntent target value innerSelector amountUnits rules
    else if r.kind = lit "VENUE_BLACKLIST" then
      let venues := (r.venues.getD .nil).items.map (·.lower U)
      if .text (U.lower target) ∈ venues then some (lit "VENUE_BLACKLIST")
      else classifyIntent target value innerSelector amountUnits rules
    else if r.kind = lit "NO_UNAUDITED_CONTRACTS" then
      let whitelist := (r.whitelist.getD .nil).items.map (·.lower U)
      if whitelist ≠ [] ∧ .text (U.lower target) ∉ whitelist then
        some (lit "NO_UNAUDITED_CONTRACTS")
      else classifyIntent target value innerSelector amountUnits rules
    else classifyIntent target value innerSelector amountUnits rules

/-- `TradeIntent`, without what is noted for the reader. -/
structure TradeIntent where
  kind : Str
  target : Str
  value : ℤ
  calldata : Bytes
  executeCalldata : Bytes

/-- `build_erc20_transfer_calldata`. -/
def buildErc20TransferCalldata (recipient : Str) (amountUnits : ℤ) : Option Bytes := do
  return transferSelector ++ ((← encodeAddress abi (.text recipient)) ++ (← encodeUint amountUnits))

/-- `build_execute_calldata`. -/
def buildExecuteCalldata (target : Str) (value : ℤ) (inner : Bytes) : Option Bytes := do
  return executeSelector ++ ((← encodeAddress abi (.text target)) ++
    ((← encodeUint value) ++ (word (32 * 3) ++ bytes inner)))

def usdcText : Str := lit "0x3600000000000000000000000000000000000000"

def recipientText : Str := lit "0x000000000000000000000000000000000000bEEF"

/-- `_build_transfer_intent`, by a Bob with these rules. -/
def buildTransferIntent (constitutionRules : List (RuleDict V)) (sizeUsdc : V) :
    Option TradeIntent := do
  let amountUnits ← usdcToUnits U (py.str sizeUsdc)
  let inner ← buildErc20TransferCalldata abi recipientText amountUnits
  let outer ← buildExecuteCalldata abi usdcText 0 inner
  let kind ← classifyIntent U py usdcText 0 transferSelector amountUnits constitutionRules
  return ⟨kind, usdcText, 0, inner, outer⟩

end Source

end Bob
end Constitution
end Arcane
