import Arcane.DarkPool.Payment
import Arcane.Lib.Eip712
import Arcane.Lib.Traverse

/-!
# The digest of an authorization

`TypedData.digest` is the digest of EIP-712 for a `TransferWithAuthorization` whose fields have
their types. `digest_binds`: unless the hash function collides on what two authorizations hash,
those of one digest have one end of their validity, and the hash of one domain.
-/

namespace Arcane
namespace DarkPool
namespace TypedData

open Text Python

variable {F : Type} {t t' : TypedData F}

/-- An address of 20 bytes in hexadecimal digits. -/
def addressField (s : Str) : Option Bytes :=
  (fromHex (remove0x s)).bind fun b =>
    if (remove0x s).length = 40 ∧ b.length = 20 then some (List.replicate 12 0 ++ b) else none

def uint256Field (n : ℤ) : Option Bytes :=
  if 0 ≤ n ∧ n < 2 ^ 256 then some (Abi.word n.toNat) else none

def bytes32Field (s : Str) : Option Bytes :=
  (fromHex (remove0x s)).bind fun b =>
    if (remove0x s).length = 64 ∧ b.length = 32 then some b else none

def stringField (s : Str) : Option Bytes := (utf8 s).map keccak256

/-- A field that has to be a text. -/
def textual (field : Str → Option Bytes) : Json F → Option Bytes
  | .str s => field s
  | _ => none

def domainFields (t : TypedData F) : List (Option Bytes) :=
  [textual stringField t.name, textual stringField t.version, uint256Field t.chainId,
    addressField t.verifyingContract]

def messageFields (t : TypedData F) : List (Option Bytes) :=
  [addressField t.fromAddr, textual addressField t.toAddr, uint256Field t.value,
    uint256Field t.validAfter, uint256Field t.validBefore, bytes32Field t.nonce]

/-- What is hashed of a structure of the type, where all fields have theirs. -/
def encodeData (type : String) (fields : List (Option Bytes)) : Option Bytes :=
  (fields.mapM id).map (Eip712.structBytes ((utf8 (lit type)).getD []))

def domainType : String :=
  "EIP712Domain(string name,string version,uint256 chainId,address verifyingContract)"

def messageType : String :=
  "TransferWithAuthorization(address from,address to,uint256 value,uint256 validAfter," ++
    "uint256 validBefore,bytes32 nonce)"

def domainData (t : TypedData F) : Option Bytes := encodeData domainType t.domainFields

def messageData (t : TypedData F) : Option Bytes := encodeData messageType t.messageFields

/-- What the digest is the hash of. -/
def signable (t : TypedData F) : Option Bytes :=
  t.domainData.bind fun domain => t.messageData.map fun message =>
    Eip712.digestBytes (keccak256 domain) (keccak256 message)

def digest (t : TypedData F) : Option Bytes := t.signable.map keccak256

/-- The hash function does not collide on what the two hash. -/
structure NoCollision (t t' : TypedData F) : Prop where
  signable : ∀ a ∈ t.signable, ∀ a' ∈ t'.signable, keccak256 a = keccak256 a' → a = a'
  message : ∀ a ∈ t.messageData, ∀ a' ∈ t'.messageData, keccak256 a = keccak256 a' → a = a'

theorem NoCollision.refl (t : TypedData F) : NoCollision t t where
  signable _ ha _ ha' _ := Option.some.inj (ha.symm.trans ha')
  message _ ha _ ha' _ := Option.some.inj (ha.symm.trans ha')

theorem length_addressField {s : Str} : ∀ b ∈ addressField s, b.length = 32 := by
  intro b hb
  obtain ⟨a, -, ha⟩ := Option.bind_eq_some_iff.mp hb
  obtain ⟨⟨-, hlength⟩, heq⟩ := Option.ite_none_right_eq_some.mp ha
  rw [← Option.some.inj heq, List.length_append, List.length_replicate, hlength]

theorem length_uint256Field {n : ℤ} : ∀ b ∈ uint256Field n, b.length = 32 := by
  intro b hb
  obtain ⟨-, heq⟩ := Option.ite_none_right_eq_some.mp hb
  rw [← Option.some.inj heq, Abi.length_word]

theorem length_bytes32Field {s : Str} : ∀ b ∈ bytes32Field s, b.length = 32 := by
  intro b hb
  obtain ⟨a, -, ha⟩ := Option.bind_eq_some_iff.mp hb
  obtain ⟨⟨-, hlength⟩, heq⟩ := Option.ite_none_right_eq_some.mp ha
  rw [← Option.some.inj heq, hlength]

theorem length_textual {field : Str → Option Bytes} {v : Json F}
    (h : ∀ s, ∀ b ∈ field s, b.length = 32) : ∀ b ∈ textual field v, b.length = 32 := by
  intro b hb
  cases v with
  | str s => exact h s b hb
  | _ => cases hb

/-- Every field is a word. -/
theorem length_messageFields : ∀ o ∈ t.messageFields, ∀ b ∈ o, b.length = 32 := by
  simp only [messageFields, List.forall_mem_cons]
  exact ⟨length_addressField, length_textual fun _ => length_addressField, length_uint256Field,
    length_uint256Field, length_uint256Field, length_bytes32Field, by simp⟩

theorem uint256Field_inj {n n' : ℤ} {b : Bytes} (h : uint256Field n = some b)
    (h' : uint256Field n' = some b) : n = n' := by
  obtain ⟨⟨hn, hlt⟩, hword⟩ := Option.ite_none_right_eq_some.mp h
  obtain ⟨⟨hn', hlt'⟩, hword'⟩ := Option.ite_none_right_eq_some.mp h'
  have hbound {n : ℤ} (hlt : n < 2 ^ 256) : n.toNat < 256 ^ 32 := by omega
  have hnat := congrArg Abi.ofBytes (Option.some.inj (hword.trans hword'.symm))
  rw [Abi.word, Abi.word, Abi.ofBytes_toBytes (hbound hlt), Abi.ofBytes_toBytes (hbound hlt')]
    at hnat
  omega

/-- What is hashed of a message determines its fields. -/
theorem messageFields_of_messageData {data : Bytes} (h : t.messageData = some data)
    (h' : t'.messageData = some data) :
    t.messageFields = t'.messageFields ∧ ∀ o ∈ t.messageFields, o.isSome := by
  obtain ⟨ms, hms, hdata⟩ := Option.map_eq_some_iff.mp h
  obtain ⟨ms', hms', hdata'⟩ := Option.map_eq_some_iff.mp h'
  have hfields := Traverse.map_of_mapM hms
  have hfields' := Traverse.map_of_mapM hms'
  rw [List.map_id] at hfields hfields'
  have hwords {t : TypedData F} {ms : List Bytes} (hfields : t.messageFields = ms.map some) :
      ms.map List.length = List.replicate 6 32 := by
    refine List.eq_replicate_iff.mpr ⟨?_, fun n hn => ?_⟩
    · have hlength := congrArg List.length hfields
      simpa [messageFields] using hlength.symm
    · obtain ⟨b, hb, rfl⟩ := List.mem_map.mp hn
      exact length_messageFields _ (hfields ▸ List.mem_map_of_mem hb) b rfl
  obtain rfl := Eip712.structBytes_inj ((hwords hfields).trans (hwords hfields').symm)
    (hdata.trans hdata'.symm)
  refine ⟨hfields.trans hfields'.symm, fun o ho => ?_⟩
  obtain ⟨b, -, rfl⟩ := List.mem_map.mp (hfields ▸ ho)
  rfl

theorem validBefore_of_messageData {data : Bytes} (h : t.messageData = some data)
    (h' : t'.messageData = some data) : t.validBefore = t'.validBefore := by
  obtain ⟨hfields, hsome⟩ := messageFields_of_messageData h h'
  simp only [messageFields, List.cons.injEq, List.forall_mem_cons] at hfields hsome
  obtain ⟨b, hb⟩ := Option.isSome_iff_exists.mp hsome.2.2.2.2.1
  exact uint256Field_inj hb (hfields.2.2.2.2.1 ▸ hb)

/-- The same authorization for the domain of another. -/
def inDomain (t t' : TypedData F) : TypedData F :=
  { t with
    name := t'.name
    version := t'.version
    chainId := t'.chainId
    verifyingContract := t'.verifyingContract }

/-- A digest binds the end of the validity, and the hash of the domain. -/
theorem digest_binds (hhash : NoCollision t t') {digest : Bytes} (h : t.digest = some digest)
    (h' : t'.digest = some digest) :
    t.validBefore = t'.validBefore ∧ (t.inDomain t').digest = some digest := by
  obtain ⟨a, ha, rfl⟩ := Option.map_eq_some_iff.mp h
  obtain ⟨a', ha', heq⟩ := Option.map_eq_some_iff.mp h'
  obtain rfl := hhash.signable a ha a' ha' heq.symm
  obtain ⟨domain, hdomain, hsignable⟩ := Option.bind_eq_some_iff.mp ha
  obtain ⟨message, hmessage, rfl⟩ := Option.map_eq_some_iff.mp hsignable
  obtain ⟨domain', hdomain', hsignable'⟩ := Option.bind_eq_some_iff.mp ha'
  obtain ⟨message', hmessage', heq'⟩ := Option.map_eq_some_iff.mp hsignable'
  obtain ⟨hhashed, hhashed'⟩ := Eip712.digestBytes_inj (by simp) heq'
  obtain rfl := hhash.message _ hmessage _ hmessage' hhashed'.symm
  refine ⟨validBefore_of_messageData hmessage hmessage', ?_⟩
  have hsame : (t.inDomain t').signable =
      some (Eip712.digestBytes (keccak256 domain') (keccak256 message)) := by
    have hdomainData : (t.inDomain t').domainData = some domain' := hdomain'
    have hmessageData : (t.inDomain t').messageData = some message := hmessage
    rw [signable, hdomainData, Option.bind_some, hmessageData, Option.map_some]
  rw [digest, hsame, hhashed]
  rfl

/-- The amount of an authorization with a digest is a `uint256`. -/
theorem value_nonneg_of_digest {digest : Bytes} (h : t.digest = some digest) : 0 ≤ t.value := by
  obtain ⟨a, ha, -⟩ := Option.map_eq_some_iff.mp h
  obtain ⟨_, -, hsignable⟩ := Option.bind_eq_some_iff.mp ha
  obtain ⟨message, hmessage, -⟩ := Option.map_eq_some_iff.mp hsignable
  obtain ⟨-, hsome⟩ := messageFields_of_messageData hmessage hmessage
  simp only [messageFields, List.forall_mem_cons] at hsome
  obtain ⟨b, hb⟩ := Option.isSome_iff_exists.mp hsome.2.2.1
  exact (Option.ite_none_right_eq_some.mp hb).1.1

end TypedData
end DarkPool
end Arcane
