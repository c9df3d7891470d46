import Arcane.Lib.Abi
import Arcane.Lib.Machine

/-!
# The constitution fallback

`contracts/src/ConstitutionFallback.sol`: its storage (`State`), its external functions, each under
the source's name, and what the compiler makes of the calldata. Events are left out.

* `select`, `dispatch`: which function a calldata selects, with which arguments.
* `exec`, `Step`: the functions that write, as one machine.
-/

namespace Arcane
namespace Constitution
namespace Fallback

open Text Evm Abi

abbrev Bytes4 := BitVec 32

inductive Error where
  | notInstalled
  | alreadyInstalled
  | unknownSelector (selector : Bytes4)
  /-- The arguments do not decode, or value comes with the call; there is no revert data. -/
  | malformed
  deriving DecidableEq

structure State where
  installed : Address → Bool
  allowed : Address → Bytes4 → Bool

def State.initial : State := ⟨fun _ => false, fun _ _ => false⟩

def onInstall (s : State) (m : Msg) : Tx Error State := do
  revertIf (s.installed m.sender = true) .alreadyInstalled
  return { s with installed := Function.update s.installed m.sender true }

def onUninstall (s : State) (m : Msg) : Tx Error State := do
  revertIf (s.installed m.sender = false) .notInstalled
  return { s with installed := Function.update s.installed m.sender false }

/-- `allowed[account][selector] = value`. -/
def State.setAllowed (s : State) (account : Address) (selector : Bytes4) (value : Bool) : State :=
  { s with
    allowed := Function.update s.allowed account
      (Function.update (s.allowed account) selector value) }

def allow (s : State) (m : Msg) (selector : Bytes4) : Tx Error State := do
  revertIf (s.installed m.sender = false) .notInstalled
  return s.setAllowed m.sender selector true

def disallow (s : State) (m : Msg) (selector : Bytes4) : Tx Error State := do
  revertIf (s.installed m.sender = false) .notInstalled
  return s.setAllowed m.sender selector false

/-- The first four bytes of the calldata, with zeros for those that are missing. -/
def selectorOf (data : Bytes) : Bytes4 :=
  BitVec.ofNat 32 (ofBytes ((data ++ List.replicate 4 0).take 4))

/-- `fallback`. -/
def fallback (s : State) (m : Msg) (data : Bytes) : Tx Error Bytes := do
  revertIf (s.installed m.sender = false) .notInstalled
  let selector := selectorOf data
  revertIf (s.allowed m.sender selector = false) (.unknownSelector selector)
  return []

def receive (s : State) (m : Msg) : Tx Error Unit :=
  revertIf (s.installed m.sender = false) .notInstalled

/-! ## Dispatch -/

/-- The functions that write. -/
inductive Call where
  | onInstall (data : Bytes)
  | onUninstall (data : Bytes)
  | allow (selector : Bytes4)
  | disallow (selector : Bytes4)
  deriving DecidableEq

/-- The functions that only read. -/
inductive View where
  | isModuleType (moduleTypeId : ℕ)
  | isInitialized (smartAccount : Address)
  | installed (account : Address)
  | allowed (account : Address) (selector : Bytes4)

inductive Selected where
  | call (c : Call)
  | view (v : View)
  | fallback
  | receive

/-- `abi.decode(body, (bytes))`. -/
def decodeBytes (body : Bytes) : Option Bytes := (sizeAt body 0).bind (bytesAt body)

/-- The `bytes4` at position `i`; the 28 bytes after it are zero. -/
def bytes4At (b : Bytes) (i : ℕ) : Option Bytes4 :=
  (wordAt b i).bind fun w => if w % 2 ^ 224 = 0 then some (BitVec.ofNat 32 (w / 2 ^ 224)) else none

def decodeAllowed (body : Bytes) : Option View := do
  let account ← addressAt body 0
  let selector ← bytes4At body 32
  return .allowed account selector

/-- What the calldata selects; `none` if its arguments do not decode. -/
def select (data : Bytes) : Option Selected :=
  if data = [] then some .receive
  else if data.length < 4 then some .fallback
  else
    let body := data.drop 4
    if selectorOf data = 0x6d61fe70 then (decodeBytes body).map (.call ∘ .onInstall)
    else if selectorOf data = 0x8a91b0e3 then (decodeBytes body).map (.call ∘ .onUninstall)
    else if selectorOf data = 0x6199f754 then (bytes4At body 0).map (.call ∘ .allow)
    else if selectorOf data = 0xffa813a8 then (bytes4At body 0).map (.call ∘ .disallow)
    else if selectorOf data = 0xecd05961 then (wordAt body 0).map (.view ∘ .isModuleType)
    else if selectorOf data = 0xd60b347f then (addressAt body 0).map (.view ∘ .isInitialized)
    else if selectorOf data = 0xf02900bf then (addressAt body 0).map (.view ∘ .installed)
    else if selectorOf data = 0x08ccb016 then (decodeAllowed body).map .view
    else some .fallback

/-- The selectors of the functions. -/
def functions : List Bytes4 :=
  [0x6d61fe70, 0x8a91b0e3, 0x6199f754, 0xffa813a8, 0xecd05961, 0xd60b347f, 0xf02900bf, 0x08ccb016]

/-- `MODULE_TYPE_FALLBACK`. -/
def moduleTypeFallback : ℕ := 3

def View.read (s : State) : View → Bool
  | .isModuleType moduleTypeId => moduleTypeId = moduleTypeFallback
  | .isInitialized account | .installed account => s.installed account
  | .allowed account selector => s.allowed account selector

structure Event where
  msg : Msg
  call : Call

/-- A call of a function that writes. -/
def exec (s : State) (e : Event) : Tx Error State :=
  match e.call with
  | .onInstall _ => onInstall s e.msg
  | .onUninstall _ => onUninstall s e.msg
  | .allow selector => allow s e.msg selector
  | .disallow selector => disallow s e.msg selector

/-- A call of the contract, and what it returns. Only `receive` takes value. -/
def dispatch (s : State) (m : Msg) (data : Bytes) : Tx Error (State × Bytes) :=
  match select data with
  | none => .error (.custom .malformed)
  | some .receive => do
    receive s m
    return (s, [])
  | some .fallback => do
    revertIf (m.value ≠ 0) .malformed
    let out ← fallback s m data
    return (s, out)
  | some (.view v) => do
    revertIf (m.value ≠ 0) .malformed
    return (s, word (v.read s).toNat)
  | some (.call c) => do
    revertIf (m.value ≠ 0) .malformed
    let s' ← exec s ⟨m, c⟩
    return (s', [])

/-- An accepted call of a function that writes, by any account. -/
def Step : State → Event → State → Prop := Accepts (fun _ => True) exec

end Fallback
end Constitution
end Arcane
