import Arcane.Constitution.Bob
import Arcane.Memory.Service

/-!
# Bob and his children

`agents/bob.py`: `Bob` under `bootstrap` and `spawn_child`, over the memory service and the encoding
of his rules. The fields of a rule are those that JSON has, and byte strings. `none` stands for an
exception.
-/

namespace Arcane
namespace Agents

open Text Evm Abi Memory MemoryService Constitution.Bob

/-- What the code calls outside this repository. -/
structure Platform (F E : Type) where
  numerics : Numerics F E
  unicode : Unicode
  builtins : Builtins (Json F)
  abi : EthAbi
  keccak256 : Bytes → Bytes32
  /-- `np.random.default_rng(seed).standard_normal(dim).astype(np.float32)`. -/
  standardNormal : ℕ → ℕ → List E
  length_standardNormal : ∀ seed dim, (standardNormal seed dim).length = dim

abbrev Rule (F : Type) := Dict Str (Json F)

section Fields

variable {F : Type}

/-- `list(x)`. -/
def listOf : Json F → Option (List (Json F))
  | .arr items => some items
  | .str s => some (s.map fun c => .str [c])
  | .bytes b => some (b.map fun x => .int x.toNat)
  | .obj members => some (members.map fun m => .str m.1)
  | _ => none

/-- What `eth_abi` takes for an address. -/
def addressArg : Json F → Option AddressArg
  | .str s => some (.text s)
  | .bytes b => some (.raw b)
  | _ => none

/-- What `eth_abi` takes for a byte string. -/
def bytesArg : Json F → Option Bytes
  | .bytes b => some b
  | _ => none

def addressArgs (v : Json F) : Option (PyList AddressArg) := do
  let args ← (← listOf v).mapM addressArg
  if h : args.length < 2 ^ 63 then some ⟨args, h⟩ else none

/-- A field that may be absent, and has to be read if it is not. -/
def optional {α : Type} (read : Json F → Option α) : Option (Json F) → Option (Option α)
  | none => some none
  | some v => (read v).map some

/-- The fields of a rule that its kind reads. -/
def ruleDict (r : Rule F) : Option (RuleDict (Json F)) := do
  let field (kind key : String) (k : Str) : Option (Json F) :=
    if k = lit kind then r.get? (lit key) else none
  let .str kind ← r.get? (lit "kind") | none
  let venues ← optional addressArgs (field "VENUE_BLACKLIST" "venues" kind)
  let whitelist ← optional addressArgs (field "NO_UNAUDITED_CONTRACTS" "whitelist" kind)
  let paramsBytes ← optional bytesArg (field "CUSTOM" "params_bytes" kind)
  let adapter ← optional addressArg (r.get? (lit "adapter"))
  return {
    kind := kind
    maxLeverageBps := r.get? (lit "max_leverage_bps")
    maxUsdc := r.get? (lit "max_usdc")
    venues := venues
    whitelist := whitelist
    maxChildBudgetUnits := (r.get? (lit "max_child_budget_units")).bind fun
      | .null => none
      | v => some v
    maxChildBudgetUsdc := r.get? (lit "max_child_budget_usdc")
    paramsBytes := paramsBytes
    adapter := adapter }

end Fields

structure Bob (F E : Type) where
  budgetUsdc : Double F
  constitutionRules : List (Rule F)
  embeddingDim : ℕ
  seed : ℕ
  eoa : Option Address
  memory : Option (MemoryService F E)
  constitutionHash : Option Bytes32
  solidityRules : List (UInt8 × Bytes × AddressArg)

section Source

variable {F E : Type} (P : Platform F E)

/-- `hash_to_vec`; `encode` raises `UnicodeEncodeError` on a surrogate. -/
def hashToVec (s : Str) (dim seed : ℕ) : Option (List E) := do
  let digest := sha256 (← utf8 s)
  let rngSeed := ofBytes (digest.take 8) ^^^ seed
  let v := P.standardNormal rngSeed dim
  let n := P.numerics.norm v
  if P.numerics.isZero n then return v
  return v.map (P.numerics.divE · n)

/-- `_rule_canonical_text`. -/
def ruleCanonicalText (rule : Rule F) : Str :=
  let kind := ((rule.get? (lit "kind")).map P.builtins.str).getD (lit "CUSTOM")
  let params := rule.items.filter fun m => m.1 ≠ lit "kind" ∧ m.1 ≠ lit "rule_id"
  let kv := (lit ",").intercalate
    ((Json.sorted params).map fun m => m.1 ++ lit "=" ++ P.builtins.str m.2)
  lit "constitution rule " ++ kind ++ lit " (" ++ kv ++ lit ")"

/-- `f"pinned:{r.get('rule_id', r['kind'])}"`. -/
def label (r : Rule F) : Option Str := do
  let kind ← r.get? (lit "kind")
  return lit "pinned:" ++ P.builtins.str ((r.get? (lit "rule_id")).getD kind)

/-- `{"text": text, **r}`. -/
def payload (r : Rule F) : Dict Str (Json F) :=
  .ofList ((lit "text", .str (ruleCanonicalText P r)) :: r.items)

/-- The body of the loops that pin rules, at the time `now`. -/
def pinRule (dim seed : ℕ) (now : Double F) (memory : MemoryService F E) (r : Rule F) :
    Option (MemoryService F E) := do
  let vec ← hashToVec P (ruleCanonicalText P r) dim seed
  memory.add P.numerics now (← label P r) vec (lit "pinned") true (some (payload P r).items)

/-- The loops that pin rules, with a reading of the clock for each rule. -/
def pinRules (dim seed : ℕ) : (ℕ → F) → List (Rule F) → MemoryService F E →
    Option (MemoryService F E)
  | _, [], memory => some memory
  | clock, r :: rules, memory => do
    let memory ← pinRule P dim seed (.finite (clock 0)) memory r
    pinRules dim seed (fun i => clock (i + 1)) rules memory

/-- `rules_to_solidity`. -/
def solidity (rules : List (Rule F)) : Option (List (UInt8 × Bytes × AddressArg)) := do
  rulesToSolidity P.unicode P.builtins P.abi (← rules.mapM ruleDict)

/-- `constitution_hash`. -/
def constitutionHash (rules : List (Rule F)) : Option Bytes32 := do
  return Constitution.Registry.hashOf P.keccak256
    (← encodedRules P.unicode P.builtins P.abi (← rules.mapM ruleDict))

namespace Bob

/-- `bootstrap`, which draws the account `account`. -/
def bootstrap (account : Address) (clock : ℕ → F) (bob : Bob F E) : Option (Bob F E) :=
  if bob.eoa.isSome then some bob
  else do
    let solidityRules ← solidity P bob.constitutionRules
    let hash ← Agents.constitutionHash P bob.constitutionRules
    let memory := MemoryService.new P.numerics bob.embeddingDim ∅ bob.seed
    let memory ← pinRules P bob.embeddingDim bob.seed clock bob.constitutionRules memory
    return { bob with
      eoa := some account
      solidityRules := solidityRules
      constitutionHash := some hash
      memory := some memory }

/-- `<` of the keys that the entries are sorted by. -/
def keyLt (e e' : Entry F) : Bool :=
  let N := P.numerics
  let same x y := N.le x y && N.le y x
  let weight e := N.neg (Entry.weight e)
  let ts e := N.neg (Entry.lastDecayTs e)
  if same (weight e) (weight e') then
    if same (ts e) (ts e') then e.traceId < e'.traceId else N.lt (ts e) (ts e')
  else N.lt (weight e) (weight e')

/-- `_clone_memory_for_child`. -/
def cloneMemoryForChild (workingCap : ℤ) (bob : Bob F E) : Option (MemoryService F E) := do
  let parentMem ← bob.memory
  let childMem := MemoryService.new P.numerics parentMem.dim parentMem.decayLambdas parentMem.seed
  let childMem := { childMem with centroid := parentMem.centroid }
  let pinned := parentMem.entries.items.filter (·.2.pinned)
  let entries := childMem.entries.update (pinned.map fun m => (m.1, { m.2 with pinned := true }))
  let working := parentMem.entries.values.filter fun e => !e.pinned
  let working := working.mergeSort fun e e' => !keyLt P e' e
  let kept := if workingCap > 0 then working.take workingCap.toNat else []
  let entries := entries.update (kept.map fun e => (e.traceId, { e with pinned := false }))
  return { childMem with entries := entries }

def defaultChildWorkingCap : ℤ := 64

/-- `child_budget_usdc`, or else half of the budget. -/
def childBudget (childBudgetUsdc : Option (Double F)) (bob : Bob F E) : Double F :=
  let N := P.numerics
  let zero := N.quot 0 1
  let half := N.div bob.budgetUsdc (N.quot 2 1)
  childBudgetUsdc.getD (if N.lt zero half then half else zero)

/-- The child that `spawn_child` makes. The clock is read for all rules in `bootstrap`, and again
for the rules that are pinned after it. -/
def spawned (account : Address) (clock : ℕ → F) (childBudgetUsdc : Option (Double F))
    (extraRules : List (Rule F)) (memoryWorkingCap : Option ℤ) (bob : Bob F E) :
    Option (Bob F E) := do
  let _ ← bob.eoa
  let childBudget := bob.childBudget P childBudgetUsdc
  if P.numerics.lt bob.budgetUsdc childBudget then none
  else
    let childRules := bob.constitutionRules ++ extraRules
    let child : Bob F E :=
      { budgetUsdc := childBudget
        constitutionRules := childRules
        embeddingDim := bob.embeddingDim
        seed := bob.seed
        eoa := none
        memory := none
        constitutionHash := none
        solidityRules := [] }
    let child ← child.bootstrap P account clock
    let memory ← bob.cloneMemoryForChild P (memoryWorkingCap.getD defaultChildWorkingCap)
    let memory ← pinRules P bob.embeddingDim bob.seed (fun i => clock (childRules.length + i))
      extraRules memory
    return { child with memory := some memory }

/-- `spawn_child`: the parent, and the child unless it raised. -/
def spawnChild (account : Address) (clock : ℕ → F) (childBudgetUsdc : Option (Double F))
    (extraRules : List (Rule F)) (memoryWorkingCap : Option ℤ) (bob : Bob F E) :
    Bob F E × Option (Bob F E) :=
  (bob, bob.spawned P account clock childBudgetUsdc extraRules memoryWorkingCap)

end Bob
end Source

end Agents
end Arcane
