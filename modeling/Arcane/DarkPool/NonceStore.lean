import Arcane.Lib.Dict
import Arcane.Lib.Utf8

/-!
# The nonce store

`agents/nonce_store.py`: rows keyed by the EIP-712 domain, the signer and the nonce, in a SQLite
table or in a dictionary. SQLite takes integers of 64 bits and strings that can be encoded, and
raises on others.
-/

namespace Arcane
namespace DarkPool

open Text

/-- The primary key of a row. -/
structure NonceKey where
  chainId : ℤ
  verifyingContract : Str
  signer : Str
  nonce : Str
deriving DecidableEq

/-- `_resolve_domain` and `_normalise`. -/
def nonceKey (U : Unicode) (signer nonce : Str) (chainId : ℤ) (verifyingContract : Str) :
    NonceKey :=
  ⟨chainId, U.lower verifyingContract, U.lower signer, U.lower nonce⟩

structure NonceStore where
  /-- `SqliteNonceStore`, or else `InMemoryNonceStore`. -/
  sqlite : Bool
  /-- When each row expires. -/
  rows : Dict NonceKey ℤ

/-- An integer of 64 bits. -/
def fits (n : ℤ) : Bool := -2 ^ 63 ≤ n && n < 2 ^ 63

def NonceKey.bindable (k : NonceKey) : Bool :=
  fits k.chainId && (utf8 k.verifyingContract).isSome && (utf8 k.signer).isSome &&
    (utf8 k.nonce).isSome

namespace NonceStore

variable (store : NonceStore)

def has (k : NonceKey) : Option Bool :=
  if store.sqlite && !k.bindable then none else some (store.rows.get? k).isSome

/-- `add`: the first write of a row wins. -/
def add (k : NonceKey) (expiresAt : ℤ) : Option NonceStore :=
  if store.sqlite && !(k.bindable && fits expiresAt) then none
  else if (store.rows.get? k).isSome then some store
  else some { store with rows := store.rows.set k expiresAt }

def purgeExpired (now : ℤ) : NonceStore :=
  { store with rows := store.rows.filter fun expiresAt => !(expiresAt ≤ now) }

end NonceStore
end DarkPool
end Arcane
