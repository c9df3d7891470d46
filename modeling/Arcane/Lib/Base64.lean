import Arcane.Lib.Utf8

/-!
# Base64

`encode` writes the standard alphabet with padding. `decode` is the lenient reader of Python: it
skips what is not in the alphabet, and stops at the padding. It reads back what was written
(`decode_encode`).
-/

namespace Base64

open Text

/-- The character of a sextet. -/
def sextetChar (n : ℕ) : CodePoint :=
  if n % 64 < 26 then ⟨65 + n % 64, by omega⟩
  else if n % 64 < 52 then ⟨71 + n % 64, by omega⟩
  else if n % 64 < 62 then ⟨n % 64 - 4, by omega⟩
  else if n % 64 = 62 then ofChar '+'
  else ofChar '/'

/-- The sextet of a character of the alphabet. -/
def charSextet (c : CodePoint) : Option ℕ :=
  if 65 ≤ c.val ∧ c.val ≤ 90 then some (c.val - 65)
  else if 97 ≤ c.val ∧ c.val ≤ 122 then some (c.val - 71)
  else if 48 ≤ c.val ∧ c.val ≤ 57 then some (c.val + 4)
  else if c.val = 43 then some 62
  else if c.val = 47 then some 63
  else none

def padChar : CodePoint := ofChar '='

def encode : Bytes → Str
  | [] => []
  | [a] => [sextetChar (a.toNat / 4), sextetChar (a.toNat % 4 * 16), padChar, padChar]
  | [a, b] =>
    [sextetChar (a.toNat / 4), sextetChar (a.toNat % 4 * 16 + b.toNat / 16),
      sextetChar (b.toNat % 16 * 4), padChar]
  | a :: b :: c :: l =>
    sextetChar (a.toNat / 4) :: sextetChar (a.toNat % 4 * 16 + b.toNat / 16) ::
      sextetChar (b.toNat % 16 * 4 + c.toNat / 64) :: sextetChar (c.toNat % 64) :: encode l

/-- The reader: the number of sextets of the quad that were read, the bits left over, and the
number of padding characters since. -/
def decodeFrom : ℕ → ℕ → ℕ → Str → Option Bytes
  | quad, _, _, [] => if quad = 0 then some [] else none
  | quad, left, pads, c :: s =>
    if c = padChar then
      if 2 ≤ quad then
        if 4 ≤ quad + (pads + 1) then some [] else decodeFrom quad left (pads + 1) s
      else decodeFrom quad left pads s
    else
      match charSextet c with
      | none => decodeFrom quad left pads s
      | some n =>
        match quad with
        | 0 => decodeFrom 1 n 0 s
        | 1 => (decodeFrom 2 (n % 16) 0 s).map (.ofNat (left * 4 + n / 16) :: ·)
        | 2 => (decodeFrom 3 (n % 4) 0 s).map (.ofNat (left * 16 + n / 4) :: ·)
        | _ => (decodeFrom 0 0 0 s).map (.ofNat (left * 64 + n) :: ·)

/-- `base64.b64decode` of a string, which must be ASCII. -/
def decode (s : Str) : Option Bytes := if isAscii s then decodeFrom 0 0 0 s else none

theorem sextetChar_spec (n : ℕ) : charSextet (sextetChar n) = some (n % 64) ∧
    sextetChar n ≠ padChar ∧ (sextetChar n).val < 128 := by
  have hall : ∀ m : Fin 64, charSextet (sextetChar m) = some m.val ∧
      sextetChar m ≠ padChar ∧ (sextetChar m).val < 128 := by decide +kernel
  have hmod : sextetChar n = sextetChar (n % 64) := by simp only [sextetChar, Nat.mod_mod]
  rw [hmod]
  exact hall ⟨n % 64, Nat.mod_lt n (by decide)⟩

theorem decodeFrom_sextet (quad left pads n : ℕ) (s : Str) :
    decodeFrom quad left pads (sextetChar n :: s) =
      match quad with
      | 0 => decodeFrom 1 (n % 64) 0 s
      | 1 => (decodeFrom 2 (n % 64 % 16) 0 s).map (.ofNat (left * 4 + n % 64 / 16) :: ·)
      | 2 => (decodeFrom 3 (n % 64 % 4) 0 s).map (.ofNat (left * 16 + n % 64 / 4) :: ·)
      | _ => (decodeFrom 0 0 0 s).map (.ofNat (left * 64 + n % 64) :: ·) := by
  obtain ⟨h₁, h₂, -⟩ := sextetChar_spec n
  rw [decodeFrom, if_neg h₂, h₁]

theorem ofNat_of_eq {a : UInt8} {n : ℕ} (h : n = a.toNat) : UInt8.ofNat n = a := by
  rw [h, UInt8.ofNat_toNat]

theorem decodeFrom_encode (b : Bytes) (pads : ℕ) : decodeFrom 0 0 pads (encode b) = some b := by
  induction b using encode.induct generalizing pads with
  | case1 => rfl
  | case2 a =>
    have ha := a.toNat_lt
    have h₁ : UInt8.ofNat (a.toNat / 4 % 64 * 4 + a.toNat % 4 * 16 % 64 / 16) = a :=
      ofNat_of_eq (by omega)
    simp only [encode, decodeFrom_sextet, h₁]
    rfl
  | case3 a b =>
    have ha := a.toNat_lt
    have hb := b.toNat_lt
    have h₁ :
        UInt8.ofNat (a.toNat / 4 % 64 * 4 + (a.toNat % 4 * 16 + b.toNat / 16) % 64 / 16) = a :=
      ofNat_of_eq (by omega)
    have h₂ : UInt8.ofNat ((a.toNat % 4 * 16 + b.toNat / 16) % 64 % 16 * 16 +
        b.toNat % 16 * 4 % 64 / 4) = b := ofNat_of_eq (by omega)
    simp only [encode, decodeFrom_sextet, h₁, h₂]
    rfl
  | case4 a b c l ih =>
    have ha := a.toNat_lt
    have hb := b.toNat_lt
    have hc := c.toNat_lt
    have h₁ :
        UInt8.ofNat (a.toNat / 4 % 64 * 4 + (a.toNat % 4 * 16 + b.toNat / 16) % 64 / 16) = a :=
      ofNat_of_eq (by omega)
    have h₂ : UInt8.ofNat ((a.toNat % 4 * 16 + b.toNat / 16) % 64 % 16 * 16 +
        (b.toNat % 16 * 4 + c.toNat / 64) % 64 / 4) = b := ofNat_of_eq (by omega)
    have h₃ :
        UInt8.ofNat ((b.toNat % 16 * 4 + c.toNat / 64) % 64 % 4 * 64 + c.toNat % 64 % 64) = c :=
      ofNat_of_eq (by omega)
    simp only [encode, decodeFrom_sextet, h₁, h₂, h₃, ih, Option.map_some]

theorem isAscii_encode (b : Bytes) : isAscii (encode b) := by
  have hpad : padChar.val < 128 := by decide
  have hs : ∀ n, (sextetChar n).val < 128 := fun n => (sextetChar_spec n).2.2
  induction b using encode.induct with
  | case1 => simp [isAscii, encode]
  | case2 a => simp [isAscii, encode, hs, hpad]
  | case3 a b => simp [isAscii, encode, hs, hpad]
  | case4 a b c l ih =>
    rw [encode]
    simp only [isAscii, List.forall_mem_cons]
    exact ⟨hs _, hs _, hs _, hs _, ih⟩

/-- What was written is read back. -/
theorem decode_encode (b : Bytes) : decode (encode b) = some b := by
  rw [decode, if_pos (isAscii_encode b), decodeFrom_encode]

end Base64
