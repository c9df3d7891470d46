import Arcane.Lib.Base64
import Arcane.Lib.JsonText

/-!
# Conversions of Python's built-in types

`int(x)` of a string and of a JSON value, `bytes.fromhex`, `dict.get`, and `b64decode(raw).decode()`
with `json.loads`.
-/

namespace Python

open Text

section Exceptions

variable {ε ε' α β : Type}

theorem bind_eq_ok {x : Except ε α} {f : α → Except ε β} {b : β} :
    x >>= f = .ok b ↔ ∃ a, x = .ok a ∧ f a = .ok b := by
  cases x <;> simp [bind, Except.bind]

theorem mapError_eq_ok {f : ε → ε'} {x : Except ε α} {a : α} :
    x.mapError f = .ok a ↔ x = .ok a := by
  cases x <;> simp [Except.mapError]

theorem mapError_eq_error {f : ε → ε'} {x : Except ε α} {e : ε'} :
    x.mapError f = .error e ↔ ∃ e', x = .error e' ∧ f e' = e := by
  cases x <;> simp [Except.mapError]

end Exceptions

section Integers

variable (U : Unicode)

/-- Decimal digits with single underscores between them; `after` tells whether a digit came just
before. -/
def readUnderscored (acc : ℕ) (after : Bool) : Str → Option ℕ
  | [] => if after then some acc else none
  | c :: s =>
    match U.digit c with
    | some d => readUnderscored (10 * acc + d) true s
    | none => if c = ofChar '_' ∧ after then readUnderscored acc false s else none

/-- `int(s)` of a string; it raises `ValueError`. -/
def intOfText (s : Str) : Option ℤ :=
  match trim U.space s with
  | [] => none
  | c :: t =>
    if c = ofChar '-' then (readUnderscored U 0 false t).map fun n : ℕ => -(n : ℤ)
    else if c = ofChar '+' then (readUnderscored U 0 false t).map Int.ofNat
    else (readUnderscored U 0 false (c :: t)).map Int.ofNat

/-- What `int(x)` raises: a `TypeError` or `ValueError`, or an `OverflowError`. -/
inductive IntError
  | invalid
  | overflow
deriving DecidableEq

/-- `int(x)` of a JSON value, with the integral part of a finite floating point number. -/
def intOf {F : Type} (truncate : F → ℤ) : Json F → Except IntError ℤ
  | .int n => .ok n
  | .bool b => .ok (if b then 1 else 0)
  | .float (.finite x) => .ok (truncate x)
  | .float .nan => .error .invalid
  | .float _ => .error .overflow
  | .str s =>
    match intOfText U s with
    | some n => .ok n
    | none => .error .invalid
  | _ => .error .invalid

theorem readUnderscored_digits {s : Str} (acc : ℕ) (after : Bool)
    (h : ∀ c ∈ s, 48 ≤ c.val ∧ c.val ≤ 57) (hs : s ≠ [] ∨ after = true) :
    readUnderscored U acc after s = readBase 10 digitVal acc s := by
  induction s generalizing acc after with
  | nil => simpa [readUnderscored, readBase] using hs
  | cons c s ih =>
    have hc := h c (by simp)
    have hd : U.digit c = some (c.val - 48) := by
      rw [U.digit_ascii c (by omega), if_pos hc]
    rw [readUnderscored, hd, readBase, digitVal, if_pos hc]
    exact ih _ true (fun x hx => h x (by simp [hx])) (.inr rfl)

/-- `int(str(n))`. -/
@[simp]
theorem intOfText_intText (n : ℤ) : intOfText U (intText n) = some n := by
  have htrim : trim U.space (intText n) = intText n := by
    apply trim_eq_self
    intro c hc
    have := sign_of_mem_intText c hc
    exact U.space_ascii c (by omega) (by omega)
  have hread (n : ℕ) : readUnderscored U 0 false (natText n) = some n := by
    rw [readUnderscored_digits U 0 false digit_of_mem_natText (.inl (natText_ne_nil n)),
      readBase_natText]
  rw [intOfText, htrim]
  cases n with
  | ofNat n =>
    cases ht : natText n with
    | nil => exact absurd ht (natText_ne_nil n)
    | cons c t =>
      have hc : 48 ≤ c.val ∧ c.val ≤ 57 := digit_of_mem_natText c (by rw [ht]; simp)
      have hminus : c ≠ ofChar '-' := by
        rintro rfl
        exact absurd hc.1 (by decide)
      have hplus : c ≠ ofChar '+' := by
        rintro rfl
        exact absurd hc.1 (by decide)
      simp only [intText, ht, hminus, hplus, if_false]
      rw [← ht, hread]
      rfl
  | negSucc n =>
    have ht : intText (.negSucc n) = ofChar '-' :: natText (n + 1) := rfl
    rw [ht]
    simp only [if_true, hread]
    rfl

end Integers

section Hexadecimal

variable (U : Unicode)

/-- Hexadecimal digits with single underscores between them, as in `readUnderscored`. -/
def readUnderscored16 (acc : ℕ) (after : Bool) : Str → Option ℕ
  | [] => if after then some acc else none
  | c :: s =>
    match (U.digit c).or (hexVal c) with
    | some d => readUnderscored16 (16 * acc + d) true s
    | none => if c = ofChar '_' ∧ after then readUnderscored16 acc false s else none

/-- What follows `0x` and an underscore after it. -/
def dropHexMark : Str → Str
  | z :: x :: s =>
    if U.digit z = some 0 ∧ (x = ofChar 'x' ∨ x = ofChar 'X') then
      match s with
      | u :: t => if u = ofChar '_' then t else u :: t
      | [] => []
    else z :: x :: s
  | s => s

/-- `int(s, 16)`; it raises `ValueError`. -/
def intOfText16 (s : Str) : Option ℤ :=
  let digits (t : Str) : Option ℕ := readUnderscored16 U 0 false (dropHexMark U t)
  match trim U.space s with
  | [] => none
  | c :: t =>
    if c = ofChar '-' then (digits t).map fun n : ℕ => -(n : ℤ)
    else if c = ofChar '+' then (digits t).map Int.ofNat
    else (digits (c :: t)).map Int.ofNat

end Hexadecimal

/-- `s.removeprefix("0x")`. -/
def remove0x : Str → Str
  | z :: x :: s => if z = ofChar '0' ∧ x = ofChar 'x' then s else z :: x :: s
  | s => s

/-- White space of ASCII. -/
def asciiSpace (c : CodePoint) : Bool := c.val = 32 || (9 ≤ c.val && c.val ≤ 13)

/-- `bytes.fromhex`: pairs of digits, with white space before and after them; it raises
`ValueError`. -/
def fromHex : Str → Option Bytes
  | [] => some []
  | c :: s =>
    if asciiSpace c then fromHex s
    else
      match s with
      | [] => none
      | d :: s =>
        match hexVal c, hexVal d with
        | some x, some y => (fromHex s).map (.ofNat (16 * x + y) :: ·)
        | _, _ => none

/-- `bytes.hex`. -/
def hex (b : Bytes) : Str :=
  b.flatMap fun x => [Json.hexDigit (x.toNat / 16), Json.hexDigit x.toNat]

theorem isAscii_hex (b : Bytes) : isAscii (hex b) := by
  intro c hc
  obtain ⟨x, -, hc⟩ := List.mem_flatMap.mp hc
  simp only [List.mem_cons, List.not_mem_nil, or_false] at hc
  rcases hc with rfl | rfl
  · exact (Json.printable_hexDigit _).2
  · exact (Json.printable_hexDigit _).2

/-- `int.from_bytes(b, "big")`. -/
def ofBytes (b : Bytes) : ℕ := b.foldl (fun n x => 256 * n + x.toNat) 0

/-- `bool(x)`. -/
def truthy {F : Type} (isZero : F → Bool) : Json F → Bool
  | .null => false
  | .bool b => b
  | .int n => n ≠ 0
  | .float (.finite x) => !isZero x
  | .float _ => true
  | .str s => !s.isEmpty
  | .bytes b => !b.isEmpty
  | .arr items => !items.isEmpty
  | .obj members => !members.isEmpty

/-- `d.get(key)`. -/
def get {F : Type} (d : List (Str × Json F)) (key : String) : Option (Json F) :=
  (d.find? fun m => m.1 = lit key).map (·.2)

theorem mem_of_get {F : Type} {d : List (Str × Json F)} {key : String} {v : Json F}
    (h : get d key = some v) : ∃ k, (k, v) ∈ d := by
  obtain ⟨m, hm, rfl⟩ := Option.map_eq_some_iff.mp h
  exact ⟨m.1, List.mem_of_find?_eq_some hm⟩

/-- A member of an object without surrogates holds none. -/
theorem scalar_of_get (key : String) {F : Type} {members : List (Str × Json F)} {v : Json F}
    (h : Json.Scalar (.obj members)) (hv : get members key = some v) : Json.Scalar v := by
  obtain ⟨k, hm⟩ := mem_of_get hv
  exact (Json.all_obj.mp h).2 _ hm

/-- `str(x)`; `shown` is that of a byte string, a list or a dictionary. -/
def strOf {F : Type} [Json.FloatText F] (shown : Json F → Str) : Json F → Str
  | .null => lit "None"
  | .bool b => if b then lit "True" else lit "False"
  | .int n => intText n
  | .float (.finite x) => Json.FloatText.repr x
  | .float .nan => lit "nan"
  | .float .infinity => lit "inf"
  | .float .negInfinity => lit "-inf"
  | .str s => s
  | v => shown v

/-- `json.loads(base64.b64decode(raw).decode())`. -/
def loadsBase64 {F : Type} [Json.FloatText F] (raw : Str) : Option (Json F) :=
  ((Base64.decode raw).bind utf8Decode).bind Json.parse

end Python
