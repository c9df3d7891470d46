import Arcane.Lib.Abi
import Arcane.Lib.Keccak

/-!
# EIP-712

The hash of a structure whose members are words of 32 bytes, and the digest of a message in a
domain. What is hashed determines its parts (`structBytes_inj`, `digestBytes_inj`).
-/

namespace Eip712

open Text

variable {type d d' m m' : Bytes} {ms ms' : List Bytes}

/-- What is hashed of a structure: the hash of its type, and its members. -/
def structBytes (type : Bytes) (members : List Bytes) : Bytes := keccak256 type ++ members.flatten

def hashStruct (type : Bytes) (members : List Bytes) : Bytes := keccak256 (structBytes type members)

/-- What is hashed of a domain and a message. -/
def digestBytes (domain message : Bytes) : Bytes := 0x19 :: 0x01 :: (domain ++ message)

def digest (domain message : Bytes) : Bytes := keccak256 (digestBytes domain message)

@[simp]
theorem length_hashStruct (type : Bytes) (ms : List Bytes) : (hashStruct type ms).length = 32 :=
  length_keccak256 _

theorem structBytes_inj (hlength : ms.map List.length = ms'.map List.length)
    (h : structBytes type ms = structBytes type ms') : ms = ms' :=
  List.eq_iff_flatten_eq.mpr ⟨List.append_cancel_left h, hlength⟩

theorem digestBytes_inj (hlength : d.length = d'.length)
    (h : digestBytes d m = digestBytes d' m') : d = d' ∧ m = m' := by
  have htail : d ++ m = d' ++ m' := (List.cons.inj (List.cons.inj h).2).2
  exact List.append_inj htail hlength

end Eip712
