import Arcane.Lib.Text

/-!
# UTF-8

`utf8` is the strict encoding of a string: it fails on surrogates (`utf8_isSome_iff`), is undone by
`utf8Decode` (`utf8Decode_utf8`), and writes a zero byte only for a zero code point
(`zero_notMem_utf8`).
-/

namespace Text

abbrev Bytes := List UInt8

/-- A code point that is no surrogate. -/
def IsScalar (c : CodePoint) : Prop := c.val < 0xD800 ∨ 0xDFFF < c.val

instance (c : CodePoint) : Decidable (IsScalar c) :=
  inferInstanceAs (Decidable (c.val < 0xD800 ∨ 0xDFFF < c.val))

/-- The character of a code point that is no surrogate. -/
def toChar? (c : CodePoint) : Option Char :=
  if h : c.val.isValidChar then some (Char.ofNatAux c.val h) else none

def utf8 (s : Str) : Option Bytes :=
  (s.mapM toChar?).map fun cs => cs.flatMap String.utf8EncodeChar

def utf8Decode (b : Bytes) : Option Str :=
  b.toByteArray.utf8Decode?.map fun cs => cs.toList.map ofChar

theorem isValidChar_iff {c : CodePoint} : c.val.isValidChar ↔ IsScalar c := by
  have hc := c.isLt
  simp only [Nat.isValidChar, IsScalar]
  omega

theorem ofChar_isScalar (x : Char) : IsScalar (ofChar x) := by
  have h := x.valid
  simp only [UInt32.isValidChar, Nat.isValidChar] at h
  show x.val.toNat < 0xD800 ∨ 0xDFFF < x.val.toNat
  omega

theorem lit_isScalar (s : String) : ∀ c ∈ lit s, IsScalar c := by
  intro c hc
  obtain ⟨x, -, rfl⟩ := List.mem_map.mp hc
  exact ofChar_isScalar x

theorem toChar?_eq_some {c : CodePoint} {x : Char} : toChar? c = some x ↔ c = ofChar x := by
  constructor
  · intro h
    by_cases hv : c.val.isValidChar
    · rw [toChar?, dif_pos hv] at h
      cases h
      rfl
    · rw [toChar?, dif_neg hv] at h
      cases h
  · rintro rfl
    rw [toChar?, dif_pos (isValidChar_iff.mpr (ofChar_isScalar x))]
    rfl

theorem toChar?_isSome {c : CodePoint} : (toChar? c).isSome ↔ IsScalar c := by
  rw [← isValidChar_iff, toChar?]
  by_cases h : c.val.isValidChar
  · rw [dif_pos h]
    exact iff_of_true rfl h
  · rw [dif_neg h]
    exact iff_of_false Bool.false_ne_true h

theorem mapM_toChar? {s : Str} {cs : List Char} : s.mapM toChar? = some cs ↔ s = cs.map ofChar := by
  induction s generalizing cs with
  | nil => cases cs <;> simp
  | cons c s ih =>
    cases cs with
    | nil => simp [Option.bind_eq_some_iff]
    | cons x cs =>
      simp only [List.mapM_cons, Option.bind_eq_bind, Option.bind_eq_some_iff, toChar?_eq_some, ih,
        Option.pure_def, Option.some.injEq, List.cons.injEq, List.map_cons]
      constructor
      · rintro ⟨_, rfl, _, rfl, rfl, rfl⟩
        exact ⟨rfl, rfl⟩
      · rintro ⟨rfl, rfl⟩
        exact ⟨x, rfl, cs, rfl, rfl, rfl⟩

/-- The encoding of a string is that of its characters. -/
theorem utf8_eq_some {s : Str} {b : Bytes} :
    utf8 s = some b ↔
      ∃ cs : List Char, s = cs.map ofChar ∧ b = cs.flatMap String.utf8EncodeChar := by
  simp only [utf8, Option.map_eq_some_iff, mapM_toChar?]
  constructor
  · rintro ⟨cs, h, rfl⟩
    exact ⟨cs, h, rfl⟩
  · rintro ⟨cs, h, rfl⟩
    exact ⟨cs, h, rfl⟩

theorem utf8_isSome_iff {s : Str} : (utf8 s).isSome ↔ ∀ c ∈ s, IsScalar c := by
  induction s with
  | nil => simp [utf8]
  | cons c s ih =>
    have hc := toChar?_isSome (c := c)
    simp only [utf8, Option.isSome_map, List.mapM_cons] at ih ⊢
    cases h : toChar? c with
    | none => simp_all
    | some x =>
      cases h' : s.mapM toChar? <;> simp_all

/-- Decoding undoes the encoding. -/
theorem utf8Decode_utf8 {s : Str} {b : Bytes} (h : utf8 s = some b) : utf8Decode b = some s := by
  obtain ⟨cs, rfl, rfl⟩ := utf8_eq_some.mp h
  have hd : (cs.flatMap String.utf8EncodeChar).toByteArray.utf8Decode? = some cs.toArray :=
    List.utf8Decode?_utf8Encode
  simp [utf8Decode, hd]

theorem utf8_inj {s t : Str} {b : Bytes} (hs : utf8 s = some b) (ht : utf8 t = some b) : s = t :=
  Option.some.inj ((utf8Decode_utf8 hs).symm.trans (utf8Decode_utf8 ht))

/-- Only the zero code point is encoded with a zero byte. -/
theorem zero_notMem_utf8EncodeChar {x : Char} (h : x.val.toNat ≠ 0) :
    (0 : UInt8) ∉ String.utf8EncodeChar x := by
  have hne : ∀ n : ℕ, n % 256 ≠ 0 → (0 : UInt8) ≠ UInt8.ofNat n := by
    intro n hn h0
    have hv := congrArg UInt8.toNat h0
    rw [UInt8.toNat_ofNat'] at hv
    exact hn hv.symm
  intro hm
  simp only [String.utf8EncodeChar] at hm
  split at hm
  · rw [List.mem_singleton] at hm
    exact hne _ (by omega) hm
  split at hm
  · simp only [List.mem_cons, List.not_mem_nil, or_false] at hm
    rcases hm with hm | hm <;> exact hne _ (by omega) hm
  split at hm
  · simp only [List.mem_cons, List.not_mem_nil, or_false] at hm
    rcases hm with hm | hm | hm <;> exact hne _ (by omega) hm
  · simp only [List.mem_cons, List.not_mem_nil, or_false] at hm
    rcases hm with hm | hm | hm | hm <;> exact hne _ (by omega) hm

theorem zero_notMem_utf8 {s : Str} {b : Bytes} (h : utf8 s = some b) (hs : 0 ∉ s) : 0 ∉ b := by
  obtain ⟨cs, rfl, rfl⟩ := utf8_eq_some.mp h
  intro hb
  obtain ⟨x, hx, hxb⟩ := List.mem_flatMap.mp hb
  refine zero_notMem_utf8EncodeChar (fun h0 => hs ?_) hxb
  exact List.mem_map.mpr ⟨x, hx, Fin.ext h0⟩

end Text
