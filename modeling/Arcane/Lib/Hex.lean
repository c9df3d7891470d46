import Arcane.Lib.Abi
import Arcane.Lib.Python

/-!
# Hexadecimal texts of byte strings

What Python reads of `"0x" + b.hex()`: the bytes (`fromHex_hex`) and the number that they write
(`intOfText16_hex`). Both readings are left inverses, so that texts of words are equal for equal
numbers only.
-/

namespace Python

open Text

/-- `"0x" + b.hex()`. -/
def hex0x (b : Bytes) : Str := lit "0x" ++ hex b

theorem hex0x_cons (b : Bytes) : hex0x b = ofChar '0' :: ofChar 'x' :: hex b := rfl

@[simp]
theorem remove0x_hex0x (b : Bytes) : remove0x (hex0x b) = hex b := rfl

theorem hexDigit_val (d : ℕ) : 48 ≤ (Json.hexDigit d).val ∧ (Json.hexDigit d).val ≤ 57 ∨
    97 ≤ (Json.hexDigit d).val ∧ (Json.hexDigit d).val ≤ 102 := by
  unfold Json.hexDigit
  split
  · simp only
    omega
  · simp only
    omega

theorem hex_cons (x : UInt8) (b : Bytes) :
    hex (x :: b) = Json.hexDigit (x.toNat / 16) :: Json.hexDigit x.toNat :: hex b := rfl

theorem hex_append (a b : Bytes) : hex (a ++ b) = hex a ++ hex b := List.flatMap_append

theorem length_hex (b : Bytes) : (hex b).length = 2 * b.length := by
  induction b with
  | nil => rfl
  | cons x b ih =>
    rw [hex_cons, List.length_cons, List.length_cons, ih, List.length_cons]
    omega

theorem fromHex_hex (b : Bytes) : fromHex (hex b) = some b := by
  induction b with
  | nil => rfl
  | cons x b ih =>
    have hspace : asciiSpace (Json.hexDigit (x.toNat / 16)) = false := by
      have h := hexDigit_val (x.toNat / 16)
      simp only [asciiSpace, Bool.or_eq_false_iff, decide_eq_false_iff_not, Bool.and_eq_false_iff]
      omega
    have hx := x.toNat_lt
    have hdigits : 16 * (x.toNat / 16 % 16) + x.toNat % 16 = x.toNat := by omega
    rw [hex_cons, fromHex, if_neg (by rw [hspace]; decide)]
    simp only [Json.hexVal_hexDigit, ih, hdigits, Option.map_some, UInt8.ofNat_toNat]

theorem hex_injective : Function.Injective hex := by
  intro a b h
  have hread := fromHex_hex a
  rw [h, fromHex_hex] at hread
  exact (Option.some.inj hread).symm

theorem hex0x_injective : Function.Injective hex0x := fun _ _ h =>
  hex_injective (List.append_cancel_left h)

section

variable (U : Unicode)

/-- A hexadecimal digit is read as one, whatever other digits there are. -/
theorem digit_hexDigit (d : ℕ) :
    (U.digit (Json.hexDigit d)).or (hexVal (Json.hexDigit d)) = some (d % 16) := by
  have hrange := hexDigit_val d
  have hval := Json.hexVal_hexDigit d
  rw [U.digit_ascii _ (by omega)]
  split
  · next h =>
    unfold hexVal at hval
    rw [if_pos h] at hval
    rw [hval, Option.some_or]
  · rw [hval, Option.none_or]

theorem readUnderscored16_hex (acc : ℕ) (after : Bool) (b : Bytes) (h : b ≠ [] ∨ after = true) :
    readUnderscored16 U acc after (hex b) =
      some (b.foldl (fun n x => 256 * n + x.toNat) acc) := by
  induction b generalizing acc after with
  | nil =>
    obtain h | rfl := h
    · exact absurd rfl h
    · rfl
  | cons x b ih =>
    have hx := x.toNat_lt
    have hdigits : 16 * (16 * acc + x.toNat / 16 % 16) + x.toNat % 16 = 256 * acc + x.toNat := by
      omega
    rw [hex_cons, readUnderscored16, digit_hexDigit]
    simp only
    rw [readUnderscored16, digit_hexDigit]
    simp only
    rw [ih _ _ (.inr rfl), hdigits, List.foldl_cons]

theorem space_hexDigit (d : ℕ) : U.space (Json.hexDigit d) = false := by
  have h := hexDigit_val d
  exact U.space_ascii _ (by omega) (by omega)

theorem space_hex (b : Bytes) : ∀ c ∈ hex b, U.space c = false := by
  intro c hc
  obtain ⟨x, -, hc⟩ := List.mem_flatMap.mp hc
  simp only [List.mem_cons, List.not_mem_nil, or_false] at hc
  obtain rfl | rfl := hc <;> exact space_hexDigit U _

theorem dropHexMark_cons {c d u : CodePoint} (s : Str) (hc : U.digit c = some 0)
    (hd : d = ofChar 'x') (hu : u ≠ ofChar '_') :
    dropHexMark U (c :: d :: u :: s) = u :: s := by
  simp [dropHexMark, hc, hd, hu]

theorem dropHexMark_hex0x {b : Bytes} (h : b ≠ []) : dropHexMark U (hex0x b) = hex b := by
  obtain ⟨x, b, rfl⟩ := List.exists_cons_of_ne_nil h
  have hzero : U.digit (ofChar '0') = some 0 := U.digit_ascii _ (by decide)
  have hmark : Json.hexDigit (x.toNat / 16) ≠ ofChar '_' := by
    have hrange := hexDigit_val (x.toNat / 16)
    intro heq
    rw [heq] at hrange
    exact absurd hrange (by decide)
  exact dropHexMark_cons U _ hzero rfl hmark

/-- A number that is written as bytes is read back. -/
theorem intOfText16_hex {b : Bytes} (h : b ≠ []) :
    intOfText16 U (hex0x b) = some (Abi.ofBytes b : ℤ) := by
  have hspace : ∀ c ∈ hex0x b, U.space c = false := by
    intro c hc
    obtain hc | hc := List.mem_append.mp hc
    · have hmark : c = ofChar '0' ∨ c = ofChar 'x' := by simpa [lit] using hc
      obtain rfl | rfl := hmark <;> exact U.space_ascii _ (by decide) (by decide)
    · exact space_hex U b c hc
  have hread := readUnderscored16_hex U 0 false b (.inl h)
  have hsign : ofChar '0' ≠ ofChar '-' ∧ ofChar '0' ≠ ofChar '+' := by decide
  have hcons := hex0x_cons b
  have hmark := dropHexMark_hex0x U h
  rw [intOfText16, trim_eq_self hspace]
  rw [hcons] at hmark ⊢
  simp only [if_neg hsign.1, if_neg hsign.2, hmark, hread, Option.map_some]
  rfl

end

end Python
