import Mathlib.Data.Int.Notation
import Mathlib.Order.Lattice.Nat

/-!
# Text as sequences of code points

A string of Python or JavaScript is a list of code points, surrogates included: a JSON text may
spell a surrogate that no encoding of the string carries.

* `Unicode`: the part of the character database that the readers of numbers and the case
  conversions use, with what it says of ASCII text.
* `natText`, `readNat`, `intText`: decimal digits, written and read back (`readNat_natText`).
-/

namespace Text

abbrev CodePoint := Fin 0x110000

abbrev Str := List CodePoint

/-- Membership, with no proof inside: definitions that test it hold none then. -/
instance (s : Str) (l : List Str) : Decidable (s ∈ l) := inferInstance

theorem ofChar_lt (c : Char) : c.toNat < 0x110000 := by
  have h := c.valid
  simp only [UInt32.isValidChar, Nat.isValidChar] at h
  show c.val.toNat < _
  omega

def ofChar (c : Char) : CodePoint := ⟨c.toNat, ofChar_lt c⟩

/-- The text of a literal of the source. -/
def lit (s : String) : Str := s.toList.map ofChar

def isAscii (s : Str) : Prop := ∀ c ∈ s, c.val < 128

instance (s : Str) : Decidable (isAscii s) := inferInstanceAs (Decidable (∀ c ∈ s, c.val < 128))

/-- `A`..`Z` become `a`..`z`. -/
def asciiLower (c : CodePoint) : CodePoint :=
  if h : 65 ≤ c.val ∧ c.val ≤ 90 then ⟨c.val + 32, by omega⟩ else c

/-- What the languages' standard libraries take from the Unicode character database. -/
structure Unicode where
  lower : Str → Str
  space : CodePoint → Bool
  digit : CodePoint → Option ℕ
  lower_ascii : ∀ s, isAscii s → lower s = s.map asciiLower
  space_ascii : ∀ c : CodePoint, 33 ≤ c.val → c.val < 128 → space c = false
  digit_ascii : ∀ c : CodePoint, c.val < 128 →
    digit c = if 48 ≤ c.val ∧ c.val ≤ 57 then some (c.val - 48) else none

theorem isAscii_lower (U : Unicode) {s : Str} (h : isAscii s) : isAscii (U.lower s) := by
  rw [U.lower_ascii s h]
  intro c hc
  obtain ⟨x, hx, rfl⟩ := List.mem_map.mp hc
  have hlt := h x hx
  rw [asciiLower]
  split
  · simp only
    omega
  · exact hlt

/-- The database cut down to ASCII text. -/
def Unicode.ascii : Unicode where
  lower s := s.map asciiLower
  space c := c.val = 32
  digit c := if 48 ≤ c.val ∧ c.val ≤ 57 then some (c.val - 48) else none
  lower_ascii _ _ := rfl
  space_ascii c h _ := by
    have hn : c.val ≠ 32 := by omega
    simp [hn]
  digit_ascii _ _ := rfl

/-- Removes the code points with `p` at both ends. -/
def trim (p : CodePoint → Bool) (s : Str) : Str :=
  ((s.dropWhile p).reverse.dropWhile p).reverse

theorem trim_eq_self {p : CodePoint → Bool} {s : Str} (h : ∀ c ∈ s, p c = false) :
    trim p s = s := by
  have hdrop {s : Str} (h : ∀ c ∈ s, p c = false) : s.dropWhile p = s := by
    cases s with
    | nil => rfl
    | cons c s => simp [h c]
  rw [trim, hdrop h, hdrop (s := s.reverse) (by simpa using h), List.reverse_reverse]

/-- What is trimmed keeps a first code point that is no blank. -/
theorem trim_cons {p : CodePoint → Bool} {c : CodePoint} (s : Str) (h : p c = false) :
    ∃ t, trim p (c :: s) = c :: t := by
  have hdrop : (c :: s).dropWhile p = c :: s := List.dropWhile_cons_of_neg (by simp [h])
  rw [trim, hdrop, List.reverse_cons, List.dropWhile_append]
  split
  · exact ⟨[], by simp [h]⟩
  · exact ⟨(s.reverse.dropWhile p).reverse, by simp⟩

section Digits

/-- `'0'`..`'9'`. -/
def digitChar (d : ℕ) : CodePoint := ⟨48 + d % 10, by omega⟩

/-- The value of an ASCII digit. -/
def digitVal (c : CodePoint) : Option ℕ :=
  if 48 ≤ c.val ∧ c.val ≤ 57 then some (c.val - 48) else none

/-- The decimal digits of `n`. -/
def natText (n : ℕ) : Str :=
  if n < 10 then [digitChar n] else natText (n / 10) ++ [digitChar n]

/-- The value of a hexadecimal digit. -/
def hexVal (c : CodePoint) : Option ℕ :=
  if 48 ≤ c.val ∧ c.val ≤ 57 then some (c.val - 48)
  else if 97 ≤ c.val ∧ c.val ≤ 102 then some (c.val - 87)
  else if 65 ≤ c.val ∧ c.val ≤ 70 then some (c.val - 55)
  else none

/-- Digits of base `b`, with the values `val`, after the value `acc` of those already read. -/
def readBase (b : ℕ) (val : CodePoint → Option ℕ) (acc : ℕ) : Str → Option ℕ
  | [] => some acc
  | c :: s => (val c).bind fun d => readBase b val (b * acc + d) s

/-- One or more digits. -/
def readDigits (b : ℕ) (val : CodePoint → Option ℕ) (s : Str) : Option ℕ :=
  if s.isEmpty then none else readBase b val 0 s

/-- `\d+`. -/
def readNat (s : Str) : Option ℕ := readDigits 10 digitVal s

def intText : ℤ → Str
  | .ofNat n => natText n
  | .negSucc n => lit "-" ++ natText (n + 1)

@[simp]
theorem digitVal_digitChar (d : ℕ) : digitVal (digitChar d) = some (d % 10) := by
  have h := Nat.mod_lt d (show 10 > 0 by decide)
  have hv : (digitChar d).val = 48 + d % 10 := rfl
  rw [digitVal, if_pos (by omega), hv]
  simp

theorem readBase_append (b : ℕ) (val : CodePoint → Option ℕ) (acc : ℕ) (s t : Str) :
    readBase b val acc (s ++ t) = (readBase b val acc s).bind fun a => readBase b val a t := by
  induction s generalizing acc with
  | nil => rfl
  | cons c s ih =>
    cases h : val c with
    | none => simp [readBase, h]
    | some d => simp [readBase, h, ih]

theorem natText_ne_nil (n : ℕ) : natText n ≠ [] := by
  rw [natText]
  split <;> simp

theorem digit_of_mem_natText {n : ℕ} : ∀ c ∈ natText n, 48 ≤ c.val ∧ c.val ≤ 57 := by
  have hdigit (d : ℕ) : 48 ≤ (digitChar d).val ∧ (digitChar d).val ≤ 57 := by
    have hv : (digitChar d).val = 48 + d % 10 := rfl
    omega
  induction n using natText.induct with
  | case1 n h =>
    rw [natText, if_pos h]
    simpa using hdigit n
  | case2 n h ih =>
    rw [natText, if_neg h]
    intro c hc
    rcases List.mem_append.mp hc with hc | hc
    · exact ih c hc
    · rw [List.mem_singleton.mp hc]
      exact hdigit n

/-- A minus sign or a digit. -/
theorem sign_of_mem_intText {n : ℤ} : ∀ c ∈ intText n, c.val = 45 ∨ 48 ≤ c.val ∧ c.val ≤ 57 := by
  intro c hc
  cases n with
  | ofNat n => exact .inr (digit_of_mem_natText c hc)
  | negSucc n =>
    rcases List.mem_append.mp hc with hc | hc
    · rw [List.mem_singleton.mp hc]
      exact .inl rfl
    · exact .inr (digit_of_mem_natText c hc)

theorem readBase_natText (n : ℕ) : readBase 10 digitVal 0 (natText n) = some n := by
  induction n using natText.induct with
  | case1 n h =>
    rw [natText, if_pos h]
    simp [readBase, Nat.mod_eq_of_lt h]
  | case2 n h ih =>
    rw [natText, if_neg h, readBase_append, ih]
    simp only [Option.bind_some, readBase, digitVal_digitChar, Option.some.injEq]
    omega

@[simp]
theorem readNat_natText (n : ℕ) : readNat (natText n) = some n := by
  simp [readNat, readDigits, natText_ne_nil, readBase_natText]

end Digits

end Text
