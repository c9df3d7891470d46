import Arcane.Lib.Dict
import Arcane.Lib.Utf8

/-!
# JSON values

The values of a JSON text, as `json.loads` of Python or `JSON.parse` gives them: integers are
unbounded, an object keeps its members in order, and a string may hold surrogates. The finite
floating point numbers are those of a type `F`. No text gives a byte string, but the containers of
Python hold them as well.

`All p` says that `p` holds of a value and of all those inside it: `Scalar`, `Keyed` and `Finite`
are what encodings, dictionaries and strict writers need of every value.
-/

/-- A floating point number. -/
inductive Double (F : Type) where
  | finite (x : F)
  | nan
  | infinity
  | negInfinity

/-- A JSON value over the finite floating point numbers `F`. -/
inductive Json (F : Type) where
  | null
  | bool (b : Bool)
  | int (n : ℤ)
  | float (x : Double F)
  | str (s : Text.Str)
  | bytes (b : Text.Bytes)
  | arr (items : List (Json F))
  | obj (members : List (Text.Str × Json F))

namespace Json

open Text

variable {F : Type}

/-- Induction over the values inside a value. -/
@[elab_as_elim]
theorem induction {P : Json F → Prop} (null : P .null) (bool : ∀ b, P (.bool b))
    (int : ∀ n, P (.int n)) (float : ∀ x, P (.float x)) (str : ∀ s, P (.str s))
    (bytes : ∀ b, P (.bytes b))
    (arr : ∀ items, (∀ v ∈ items, P v) → P (.arr items))
    (obj : ∀ members, (∀ m ∈ members, P m.2) → P (.obj members)) (v : Json F) : P v := by
  refine @Json.rec F P (fun l => ∀ v ∈ l, P v) (fun l => ∀ m ∈ l, P m.2) (fun m => P m.2)
    null bool int float str bytes arr obj (by simp) ?_ (by simp) ?_ (fun _ _ h => h) v
  · intro v l hv hl
    rw [List.forall_mem_cons]
    exact ⟨hv, hl⟩
  · intro m l hm hl
    rw [List.forall_mem_cons]
    exact ⟨hm, hl⟩

mutual

/-- `p` holds of the value and of every value inside it. -/
def All (p : Json F → Prop) : Json F → Prop
  | .null => p .null
  | .bool b => p (.bool b)
  | .int n => p (.int n)
  | .float x => p (.float x)
  | .str s => p (.str s)
  | .bytes b => p (.bytes b)
  | .arr items => p (.arr items) ∧ AllItems p items
  | .obj members => p (.obj members) ∧ AllMembers p members

def AllItems (p : Json F → Prop) : List (Json F) → Prop
  | [] => True
  | v :: l => All p v ∧ AllItems p l

def AllMembers (p : Json F → Prop) : List (Str × Json F) → Prop
  | [] => True
  | (_, v) :: l => All p v ∧ AllMembers p l

end

theorem allItems_iff {p : Json F → Prop} {items : List (Json F)} :
    AllItems p items ↔ ∀ v ∈ items, All p v := by
  induction items with
  | nil => simp [AllItems]
  | cons v l ih => simp [AllItems, ih]

theorem allMembers_iff {p : Json F → Prop} {members : List (Str × Json F)} :
    AllMembers p members ↔ ∀ m ∈ members, All p m.2 := by
  induction members with
  | nil => simp [AllMembers]
  | cons m l ih => simp [AllMembers, ih]

theorem all_arr {p : Json F → Prop} {items : List (Json F)} :
    All p (.arr items) ↔ p (.arr items) ∧ ∀ v ∈ items, All p v := by
  rw [All, allItems_iff]

theorem all_obj {p : Json F → Prop} {members : List (Str × Json F)} :
    All p (.obj members) ↔ p (.obj members) ∧ ∀ m ∈ members, All p m.2 := by
  rw [All, allMembers_iff]

theorem all_and {p q : Json F → Prop} {v : Json F} :
    All (fun v => p v ∧ q v) v ↔ All p v ∧ All q v := by
  induction v using Json.induction with
  | arr items ih =>
    simp only [all_arr]
    constructor
    · rintro ⟨⟨hp, hq⟩, h⟩
      exact ⟨⟨hp, fun v hv => ((ih v hv).mp (h v hv)).1⟩, hq, fun v hv => ((ih v hv).mp (h v hv)).2⟩
    · rintro ⟨⟨hp, h⟩, hq, h'⟩
      exact ⟨⟨hp, hq⟩, fun v hv => (ih v hv).mpr ⟨h v hv, h' v hv⟩⟩
  | obj members ih =>
    simp only [all_obj]
    constructor
    · rintro ⟨⟨hp, hq⟩, h⟩
      exact ⟨⟨hp, fun v hv => ((ih v hv).mp (h v hv)).1⟩, hq, fun v hv => ((ih v hv).mp (h v hv)).2⟩
    · rintro ⟨⟨hp, h⟩, hq, h'⟩
      exact ⟨⟨hp, hq⟩, fun v hv => (ih v hv).mpr ⟨h v hv, h' v hv⟩⟩
  | _ => simp [All]

theorem all_of_forall {p : Json F → Prop} (h : ∀ v, p v) (v : Json F) : All p v := by
  induction v using Json.induction with
  | arr items ih => exact all_arr.mpr ⟨h _, ih⟩
  | obj members ih => exact all_obj.mpr ⟨h _, ih⟩
  | _ => exact h _

theorem all_mono {p q : Json F → Prop} (h : ∀ v, p v → q v) {v : Json F} (hv : All p v) :
    All q v := by
  induction v using Json.induction with
  | arr items ih =>
    rw [all_arr] at hv ⊢
    exact ⟨h _ hv.1, fun v hm => ih v hm (hv.2 v hm)⟩
  | obj members ih =>
    rw [all_obj] at hv ⊢
    exact ⟨h _ hv.1, fun m hm => ih m hm (hv.2 m hm)⟩
  | _ => exact h _ hv

section Decidable

variable {p : Json F → Prop} [DecidablePred p]

mutual

def decideAll : (v : Json F) → Decidable (All p v)
  | .null => inferInstanceAs (Decidable (p .null))
  | .bool b => inferInstanceAs (Decidable (p (.bool b)))
  | .int n => inferInstanceAs (Decidable (p (.int n)))
  | .float x => inferInstanceAs (Decidable (p (.float x)))
  | .str s => inferInstanceAs (Decidable (p (.str s)))
  | .bytes b => inferInstanceAs (Decidable (p (.bytes b)))
  | .arr items => @instDecidableAnd _ _ _ (decideItems items)
  | .obj members => @instDecidableAnd _ _ _ (decideMembers members)

def decideItems : (items : List (Json F)) → Decidable (AllItems p items)
  | [] => inferInstanceAs (Decidable True)
  | v :: l => @instDecidableAnd _ _ (decideAll v) (decideItems l)

def decideMembers : (members : List (Str × Json F)) → Decidable (AllMembers p members)
  | [] => inferInstanceAs (Decidable True)
  | (_, v) :: l => @instDecidableAnd _ _ (decideAll v) (decideMembers l)

end

instance (v : Json F) : Decidable (All p v) := decideAll v

end Decidable

/-- Its own strings and keys hold no surrogate, and it is no byte string. -/
def scalarHere : Json F → Prop
  | .str s => ∀ c ∈ s, IsScalar c
  | .bytes _ => False
  | .obj members => ∀ k ∈ Assoc.keys members, ∀ c ∈ k, IsScalar c
  | _ => True

/-- No string in it holds a surrogate, and there is no byte string in it. -/
def Scalar (v : Json F) : Prop := All scalarHere v

def keyedHere : Json F → Prop
  | .obj members => (Assoc.keys members).Nodup
  | _ => True

/-- No object in it has a key twice. -/
def Keyed (v : Json F) : Prop := All keyedHere v

def finiteHere : Json F → Prop
  | .float (.finite _) => True
  | .float _ => False
  | _ => True

instance : DecidablePred (@finiteHere F)
  | .float (.finite _) => .isTrue trivial
  | .float .nan => .isFalse id
  | .float .infinity => .isFalse id
  | .float .negInfinity => .isFalse id
  | .null | .bool _ | .int _ | .str _ | .bytes _ | .arr _ | .obj _ => .isTrue trivial

/-- No number in it is infinite or `NaN`. -/
def Finite (v : Json F) : Prop := All finiteHere v

instance (v : Json F) : Decidable (Finite v) := inferInstanceAs (Decidable (All _ v))

/-- It is no byte string. -/
def textualHere : Json F → Prop
  | .bytes _ => False
  | _ => True

/-- There is no byte string in it. -/
def Textual (v : Json F) : Prop := All textualHere v

def plainHere (v : Json F) : Prop := scalarHere v ∧ keyedHere v

/-- What a text is read back as: no surrogate, no byte string, and no key twice in an object. -/
def Plain (v : Json F) : Prop := All plainHere v

theorem plain_iff {v : Json F} : Plain v ↔ Scalar v ∧ Keyed v := all_and

end Json
