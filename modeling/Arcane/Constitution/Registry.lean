import Arcane.Lib.Abi
import Arcane.Lib.Keccak

/-!
# The constitution registry

`contracts/src/ConstitutionRegistry.sol`: rule lists stored under the hash of their encoding. Events
are left out.
-/

namespace Arcane
namespace Constitution

open Text Evm Abi

structure Rule where
  kind : UInt8
  params : Bytes
  adapter : Address
  deriving DecidableEq

/-- `abi.encode` of a `Rule` in an array. -/
def Rule.encode (r : Rule) : Bytes :=
  word r.kind.toNat ++ (word (32 * 3) ++ (addressWord r.adapter ++ bytes r.params))

namespace Registry

inductive Error where
  | emptyConstitution
  | unknownConstitution (hash : Bytes32)
  | adapterRequired (kind : UInt8)
  deriving DecidableEq

structure State where
  rules : Bytes32 → List Rule
  exist : Bytes32 → Bool

def State.initial : State := ⟨fun _ => [], fun _ => false⟩

/-- `keccak256` of Solidity. -/
def keccak (b : Bytes) : Bytes32 := BitVec.ofNat 256 (ofBytes (keccak256 b))

/-- `_adapterRequired`. -/
def adapterRequired (kind : UInt8) : Bool := kind = 0 || kind = 4

/-- `hashOf`. -/
def hashOf (keccak256 : Bytes → Bytes32) (rules : List Rule) : Bytes32 :=
  keccak256 (word 32 ++ array (rules.map Rule.encode))

/-- The check of one rule by `defineConstitution`. -/
def checkRule (r : Rule) : Tx Error Unit :=
  revertIf (adapterRequired r.kind = true ∧ r.adapter = 0) (.adapterRequired r.kind)

/-- `stored.push`. -/
def push (stored : List Rule) (r : Rule) : List Rule := stored ++ [r]

/-- `defineConstitution`, without the hash that it returns. -/
def defineConstitution (keccak256 : Bytes → Bytes32) (s : State) (rules : List Rule) :
    Tx Error State := do
  revertIf (rules = []) .emptyConstitution
  rules.forM checkRule
  let hash := hashOf keccak256 rules
  return if s.exist hash then s
    else {
      rules := Function.update s.rules hash (rules.foldl push (s.rules hash))
      exist := Function.update s.exist hash true }

def getConstitution (s : State) (hash : Bytes32) : Tx Error (List Rule) := do
  revertIf (s.exist hash = false) (.unknownConstitution hash)
  return s.rules hash

end Registry
end Constitution
end Arcane
