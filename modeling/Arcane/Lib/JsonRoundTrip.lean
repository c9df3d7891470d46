import Arcane.Lib.Json
import Arcane.Lib.Utf8
import Mathlib.Data.List.TakeWhile

/-!
# A JSON value is read back from its text

`parse_render`: whatever the style of the writer, as long as it keeps the order of the members, the
strings hold no surrogates and no object has a key twice (`Plain`). The proof follows the writer:
units of a string (`readUnits_escape`), numbers and keywords (`readAtom_number`,
`readAtom_keyword`), then values, items and members together (`readValue_render`).

`textual_parse`: no text is read as a value with a byte string in it.
-/

namespace Json

open Text

/-! ## Strings -/

section Strings

variable (S : Style)

@[simp]
theorem hexVal_hexDigit (d : ℕ) : hexVal (hexDigit d) = some (d % 16) := by
  have h := Nat.mod_lt d (show 16 > 0 by decide)
  unfold hexDigit
  split
  · next hd =>
    have hv : (48 : ℕ) ≤ 48 + d % 16 ∧ 48 + d % 16 ≤ 57 := by omega
    simp only [hexVal]
    rw [if_pos hv]
    simp
  · next hd =>
    have h₁ : ¬ (48 ≤ 87 + d % 16 ∧ 87 + d % 16 ≤ 57) := by omega
    have h₂ : 97 ≤ 87 + d % 16 ∧ 87 + d % 16 ≤ 102 := by omega
    simp only [hexVal]
    rw [if_neg h₁, if_pos h₂]
    simp

/-- A code unit is read back from its four digits. -/
theorem readUnit_hexDigit {n : ℕ} (h : n < 0x10000) :
    readUnit (hexDigit (n / 4096)) (hexDigit (n / 256)) (hexDigit (n / 16)) (hexDigit n) =
      some ⟨n, by omega⟩ := by
  simp [readUnit, readDigits, readBase]
  omega

theorem highUnit_lt (c : CodePoint) : highUnit c < 0x10000 := by
  have hc := c.isLt
  unfold highUnit
  omega

theorem lowUnit_lt (c : CodePoint) : lowUnit c < 0x10000 := by
  unfold lowUnit
  omega

/-- The code units that the text of a code point is read as. -/
def units (c : CodePoint) : List (Bool × CodePoint) :=
  if (shortEscape c).isSome then [(false, c)]
  else if c.val < 32 ∨ S.escapes c then
    if c.val < 0x10000 then [(true, c)]
    else [(true, ⟨highUnit c, by have := highUnit_lt c; omega⟩),
      (true, ⟨lowUnit c, by have := lowUnit_lt c; omega⟩)]
  else [(false, c)]

theorem readUnits_quote (t : Str) : readUnits (ofChar '"' :: t) = some ([], t) := by
  rw [readUnits.eq_def]
  simp

theorem readUnits_unit (a b c d : CodePoint) (t : Str) :
    readUnits (ofChar '\\' :: ofChar 'u' :: a :: b :: c :: d :: t) =
      (readUnit a b c d).bind fun u => (readUnits t).map fun p => ((true, u) :: p.1, p.2) := by
  have hq : ofChar '\\' ≠ ofChar '"' := by decide
  rw [readUnits.eq_def]
  simp only [if_neg hq, if_true]
  cases readUnit a b c d <;> cases readUnits t <;> rfl

theorem readUnits_short {e : CodePoint} (he : e ≠ ofChar 'u') (t : Str) :
    readUnits (ofChar '\\' :: e :: t) =
      (unescape e).bind fun x => (readUnits t).map fun p => ((false, x) :: p.1, p.2) := by
  have hq : ofChar '\\' ≠ ofChar '"' := by decide
  rw [readUnits.eq_def]
  simp only [if_neg hq, if_neg he, if_true]
  cases unescape e <;> cases readUnits t <;> rfl

theorem readUnits_plain {c : CodePoint} (hq : c ≠ ofChar '"') (hb : c ≠ ofChar '\\')
    (hc : 32 ≤ c.val) (t : Str) :
    readUnits (c :: t) = (readUnits t).map fun p => ((false, c) :: p.1, p.2) := by
  rw [readUnits.eq_def]
  simp only [if_neg hq, if_neg hb, if_neg (not_lt.mpr hc)]
  cases readUnits t <;> rfl

theorem unescape_shortEscape {c e : CodePoint} (h : shortEscape c = some e) :
    e ≠ ofChar 'u' ∧ unescape e = some c := by
  have hval : ∀ n (hn : n < 0x110000), c.val = n → c = ⟨n, hn⟩ := fun _ _ h => Fin.ext h
  unfold shortEscape at h
  split at h
  · next hc =>
    cases h
    rcases hc with rfl | rfl <;> decide
  split at h
  · next hc => cases h; rw [hval 8 (by decide) hc]; decide
  split at h
  · next hc => cases h; rw [hval 9 (by decide) hc]; decide
  split at h
  · next hc => cases h; rw [hval 10 (by decide) hc]; decide
  split at h
  · next hc => cases h; rw [hval 12 (by decide) hc]; decide
  split at h
  · next hc => cases h; rw [hval 13 (by decide) hc]; decide
  · cases h

theorem of_shortEscape_none {c : CodePoint} (h : shortEscape c = none) :
    c ≠ ofChar '"' ∧ c ≠ ofChar '\\' := by
  constructor <;> rintro rfl <;> simp [shortEscape] at h

theorem readUnits_escapeUnit {n : ℕ} (h : n < 0x10000) (t : Str) :
    readUnits (escapeUnit n ++ t) =
      (readUnits t).map fun p => ((true, ⟨n, by omega⟩) :: p.1, p.2) := by
  simp only [escapeUnit, List.cons_append, List.nil_append]
  rw [readUnits_unit, readUnit_hexDigit h]
  rfl

/-- The text of a code point is read as its units. -/
theorem readUnits_escape (c : CodePoint) (t : Str) :
    readUnits (escape S c ++ t) = (readUnits t).map fun p => (units S c ++ p.1, p.2) := by
  unfold escape units
  cases hs : shortEscape c with
  | some e =>
    obtain ⟨hu, he⟩ := unescape_shortEscape hs
    simp only [List.cons_append, List.nil_append]
    rw [readUnits_short hu, he]
    rfl
  | none =>
    obtain ⟨hq, hb⟩ := of_shortEscape_none hs
    simp only [Option.isSome_none, Bool.false_eq_true, if_false]
    split
    · unfold escapeUnits
      split
      · next hlt => exact readUnits_escapeUnit hlt t
      · rw [List.append_assoc, readUnits_escapeUnit (highUnit_lt c),
          readUnits_escapeUnit (lowUnit_lt c), Option.map_map]
        rfl
    · next hlt =>
      rw [not_or, not_lt] at hlt
      exact readUnits_plain hq hb hlt.1 t

theorem joinPairs_single {b : Bool} {c : CodePoint} (h : IsScalar c)
    (us : List (Bool × CodePoint)) :
    joinPairs ((b, c) :: us) = c :: joinPairs us := by
  have hh : isHigh c = false := by
    unfold IsScalar at h
    simp only [isHigh, Bool.and_eq_false_iff, decide_eq_false_iff_not]
    omega
  cases us with
  | nil => rfl
  | cons v us => simp [joinPairs, hh]

theorem joinPairs_pair {h l : CodePoint} (hh : isHigh h = true) (hl : isLow l = true)
    (us : List (Bool × CodePoint)) :
    joinPairs ((true, h) :: (true, l) :: us) = pair h l :: joinPairs us := by
  simp [joinPairs, hh, hl]

theorem isLow_lowUnit (c : CodePoint) (h : lowUnit c < 0x110000) :
    isLow ⟨lowUnit c, h⟩ = true := by
  have h₁ : 0xDC00 ≤ lowUnit c := by unfold lowUnit; omega
  have h₂ : lowUnit c ≤ 0xDFFF := by unfold lowUnit; omega
  simp [isLow, h₁, h₂]

theorem isHigh_highUnit {c : CodePoint} (hc : 0x10000 ≤ c.val) (h : highUnit c < 0x110000) :
    isHigh ⟨highUnit c, h⟩ = true := by
  have hlt := c.isLt
  have h₁ : 0xD800 ≤ highUnit c := by unfold highUnit; omega
  have h₂ : highUnit c ≤ 0xDBFF := by unfold highUnit; omega
  simp [isHigh, h₁, h₂]

theorem pair_units {c : CodePoint} (hc : 0x10000 ≤ c.val) (h : highUnit c < 0x110000)
    (h' : lowUnit c < 0x110000) : pair ⟨highUnit c, h⟩ ⟨lowUnit c, h'⟩ = c := by
  have hlt := c.isLt
  apply Fin.ext
  show (0x10000 + (highUnit c - 0xD800) * 1024 + (lowUnit c - 0xDC00)) % 0x110000 = c.val
  unfold highUnit lowUnit
  omega

/-- The units of a code point are joined to it again. -/
theorem joinPairs_units {c : CodePoint} (h : IsScalar c) (us : List (Bool × CodePoint)) :
    joinPairs (units S c ++ us) = c :: joinPairs us := by
  unfold units
  split
  · exact joinPairs_single h us
  split
  · split
    · exact joinPairs_single h us
    · next hlt =>
      rw [not_lt] at hlt
      simp only [List.cons_append, List.nil_append]
      rw [joinPairs_pair (isHigh_highUnit hlt _) (isLow_lowUnit c _), pair_units hlt]
  · exact joinPairs_single h us

theorem readUnits_flatMap (s r : Str) :
    readUnits (s.flatMap (escape S) ++ ofChar '"' :: r) = some (s.flatMap (units S), r) := by
  induction s with
  | nil => exact readUnits_quote r
  | cons c s ih =>
    rw [List.flatMap_cons, List.append_assoc, readUnits_escape, ih]
    rfl

theorem joinPairs_flatMap {s : Str} (h : ∀ c ∈ s, IsScalar c) :
    joinPairs (s.flatMap (units S)) = s := by
  induction s with
  | nil => rfl
  | cons c s ih =>
    rw [List.flatMap_cons, joinPairs_units S (h c (by simp)), ih fun x hx => h x (by simp [hx])]

theorem readString_render {s : Str} (h : ∀ c ∈ s, IsScalar c) (r : Str) :
    readString (s.flatMap (escape S) ++ ofChar '"' :: r) = some (s, r) := by
  rw [readString, readUnits_flatMap]
  simp only [Option.map_some, joinPairs_flatMap S h]

end Strings

/-! ## Numbers and keywords -/

section Numbers

/-- What a number may be followed by. -/
def Delimited (r : Str) : Prop := ∀ c, r.head? = some c → isNumber c = false

theorem delimited_nil : Delimited [] := by simp [Delimited]

theorem delimited_cons {c : CodePoint} (h : isNumber c = false) (r : Str) : Delimited (c :: r) := by
  intro d hd
  cases hd
  exact h

theorem isNumber_of_isDigit {c : CodePoint} (h : isDigit c = true) : isNumber c = true := by
  simp [isNumber, h]

/-- A part of the grammar removes number characters. -/
def Removes (s s' : Str) : Prop := ∃ p, s = p ++ s' ∧ ∀ c ∈ p, isNumber c = true

theorem removes_refl (s : Str) : Removes s s := ⟨[], rfl, by simp⟩

theorem Removes.trans {s s' s'' : Str} (h : Removes s s') (h' : Removes s' s'') :
    Removes s s'' := by
  obtain ⟨p, rfl, hp⟩ := h
  obtain ⟨q, rfl, hq⟩ := h'
  refine ⟨p ++ q, by simp, fun c hc => ?_⟩
  rcases List.mem_append.mp hc with hc | hc
  · exact hp c hc
  · exact hq c hc

theorem removes_cons {c : CodePoint} {s s' : Str} (hc : isNumber c = true) (h : Removes s s') :
    Removes (c :: s) s' := by
  have h₁ : Removes (c :: s) s := ⟨[c], rfl, by simpa using hc⟩
  exact h₁.trans h

theorem removes_digits (s : Str) : Removes s (s.dropWhile isDigit) := by
  refine ⟨s.takeWhile isDigit, (List.takeWhile_append_dropWhile ..).symm, fun c hc => ?_⟩
  exact isNumber_of_isDigit (List.mem_takeWhile_imp hc)

theorem removes_dropSign (s : Str) : Removes s (dropSign s) := by
  cases s with
  | nil => exact removes_refl _
  | cons c t =>
    unfold dropSign
    split
    · next h =>
      cases h
      exact removes_cons (by decide) (removes_refl t)
    · exact removes_refl _

theorem removes_dropInt {s s' : Str} (h : dropInt s = some s') : Removes s s' := by
  unfold dropInt at h
  split at h
  · cases h
  · split at h
    · cases h
    · cases h
      exact removes_digits s

theorem removes_dropDigits {s s' : Str} (h : dropDigits s = some s') : Removes s s' := by
  unfold dropDigits at h
  split at h
  · cases h
  · cases h
    exact removes_digits s

theorem removes_dropFrac {s s' : Str} {b : Bool} (h : dropFrac s = some (b, s')) :
    Removes s s' := by
  cases s with
  | nil =>
    cases h
    exact removes_refl _
  | cons c t =>
    rw [dropFrac] at h
    split at h
    · next hc =>
      obtain ⟨u, hu, hb⟩ := Option.map_eq_some_iff.mp h
      cases hb
      rw [hc]
      exact removes_cons (by decide) (removes_dropDigits hu)
    · cases h
      exact removes_refl _

theorem removes_dropExpSign (s : Str) : Removes s (dropExpSign s) := by
  cases s with
  | nil => exact removes_refl _
  | cons c t =>
    rw [dropExpSign]
    split
    · next hc => rcases hc with rfl | rfl <;> exact removes_cons (by decide) (removes_refl t)
    · exact removes_refl _

theorem removes_dropExp {s s' : Str} {b : Bool} (h : dropExp s = some (b, s')) : Removes s s' := by
  cases s with
  | nil =>
    cases h
    exact removes_refl _
  | cons c t =>
    rw [dropExp] at h
    split at h
    · next hc =>
      obtain ⟨u, hu, hb⟩ := Option.map_eq_some_iff.mp h
      cases hb
      have ht := (removes_dropExpSign t).trans (removes_dropDigits hu)
      rcases hc with rfl | rfl <;> exact removes_cons (by decide) ht
    · cases h
      exact removes_refl _

/-- A number is made of number characters, and not only of a sign. -/
theorem of_numberForm {s : Str} {b : Bool} (h : numberForm s = some b) :
    (∀ c ∈ s, isNumber c = true) ∧ s ≠ [] ∧ s ≠ [ofChar '-'] := by
  unfold numberForm at h
  obtain ⟨s₁, h₁, h⟩ := Option.bind_eq_some_iff.mp h
  obtain ⟨⟨f, s₂⟩, h₂, h⟩ := Option.bind_eq_some_iff.mp h
  obtain ⟨⟨e, s₃⟩, h₃, h⟩ := Option.bind_eq_some_iff.mp h
  simp only at h
  split at h
  · next hs₃ =>
    have hr := (((removes_dropSign s).trans (removes_dropInt h₁)).trans
      (removes_dropFrac h₂)).trans (removes_dropExp h₃)
    obtain ⟨p, hp, hall⟩ := hr
    rw [hs₃, List.append_nil] at hp
    subst hp
    refine ⟨hall, ?_, ?_⟩ <;> rintro rfl <;> cases h₁
  · cases h

theorem isDigit_digitChar (d : ℕ) : isDigit (digitChar d) = true := by
  have h := Nat.mod_lt d (show 10 > 0 by decide)
  have hv : (digitChar d).val = 48 + d % 10 := rfl
  simp only [isDigit, hv, Bool.and_eq_true, decide_eq_true_eq]
  omega

theorem isDigit_natText (n : ℕ) : ∀ c ∈ natText n, isDigit c = true := by
  induction n using natText.induct with
  | case1 n h =>
    rw [natText, if_pos h]
    simp [isDigit_digitChar]
  | case2 n h ih =>
    rw [natText, if_neg h]
    intro c hc
    rcases List.mem_append.mp hc with hc | hc
    · exact ih c hc
    · rw [List.mem_singleton.mp hc]
      exact isDigit_digitChar n

/-- No number but zero starts with a zero. -/
theorem natText_head {n : ℕ} (hn : n ≠ 0) : (natText n).head? ≠ some (ofChar '0') := by
  induction n using natText.induct with
  | case1 n h =>
    rw [natText, if_pos h]
    intro hc
    have hv : (digitChar n).val = (ofChar '0').val := congrArg Fin.val (Option.some.inj hc)
    have hd : (digitChar n).val = 48 + n % 10 := rfl
    have h0 : (ofChar '0').val = 48 := rfl
    omega
  | case2 n h ih =>
    rw [natText, if_neg h, List.head?_append_of_ne_nil _ (natText_ne_nil _)]
    exact ih (by omega)

theorem dropInt_natText (n : ℕ) : dropInt (natText n) = some [] := by
  have hall := isDigit_natText n
  have htake : (natText n).takeWhile isDigit = natText n := List.takeWhile_eq_self_iff.mpr hall
  have hdrop : (natText n).dropWhile isDigit = [] := List.dropWhile_eq_nil_iff.mpr hall
  unfold dropInt
  rw [htake, hdrop]
  cases h : natText n with
  | nil => exact absurd h (natText_ne_nil n)
  | cons d ds =>
    have hz : ¬ (d = ofChar '0' ∧ ds ≠ []) := by
      rintro ⟨rfl, hds⟩
      by_cases hn : n = 0
      · subst hn
        rw [natText, if_pos (by decide)] at h
        exact hds (List.cons.inj h).2.symm
      · exact natText_head hn (by rw [h]; rfl)
    simp [hz]

theorem natText_head_ne_minus (n : ℕ) : (natText n).head? ≠ some (ofChar '-') := by
  intro h
  have hd := isDigit_natText n (ofChar '-') (List.mem_of_mem_head? h)
  exact absurd hd (by decide)

theorem dropSign_natText (n : ℕ) : dropSign (natText n) = natText n :=
  if_neg (natText_head_ne_minus n)

theorem dropSign_intText (n : ℤ) : dropSign (intText n) = natText n.natAbs := by
  cases n with
  | ofNat n => exact dropSign_natText n
  | negSucc n => rfl

theorem numberForm_intText (n : ℤ) : numberForm (intText n) = some false := by
  rw [numberForm, dropSign_intText, dropInt_natText]
  rfl

theorem readInt_intText (n : ℤ) : readInt (intText n) = some n := by
  rw [readInt, dropSign_intText, readNat_natText, Option.map_some]
  cases n with
  | ofNat n =>
    have h : ¬ (intText (Int.ofNat n)).head? = some (ofChar '-') := natText_head_ne_minus n
    rw [if_neg h]
    rfl
  | negSucc n => rfl

theorem intText_inj {m n : ℤ} (h : intText m = intText n) : m = n := by
  have hread := congrArg readInt h
  rwa [readInt_intText, readInt_intText, Option.some.injEq] at hread

end Numbers

section Atoms

variable {F : Type} [FloatText F] {t r : Str} {b : Bool}

/-- A number starts no keyword: a keyword has a letter after its sign. -/
theorem dropKeyword_number (hf : numberForm t = some b) {k : Str} {c d : CodePoint} {k' : Str}
    (hk : k = c :: d :: k') (hc : isNumber c = false ∨ (c = ofChar '-' ∧ isNumber d = false)) :
    dropKeyword k (t ++ r) = none := by
  obtain ⟨hall, hne, hsign⟩ := of_numberForm hf
  have hp : k.isPrefixOf (t ++ r) = false := by
    by_contra hp
    rw [Bool.not_eq_false, List.isPrefixOf_iff_prefix, hk] at hp
    obtain ⟨u, hu⟩ := hp
    cases t with
    | nil => exact hne rfl
    | cons x t =>
      simp only [List.cons_append, List.cons.injEq] at hu
      obtain ⟨rfl, hu⟩ := hu
      have hx := hall c (by simp)
      rcases hc with hc | ⟨rfl, hd⟩
      · rw [hc] at hx
        cases hx
      · cases t with
        | nil => exact hsign rfl
        | cons y t =>
          simp only [List.cons_append, List.cons.injEq] at hu
          obtain ⟨rfl, -⟩ := hu
          have hy := hall d (by simp)
          rw [hd] at hy
          cases hy
  simp [dropKeyword, hp]

theorem readAtom_number (hf : numberForm t = some b) (hr : Delimited r) :
    readAtom (F := F) (t ++ r) = (readNumber t).map (·, r) := by
  have hall := (of_numberForm hf).1
  have hd : r.takeWhile isNumber = [] ∧ r.dropWhile isNumber = r := by
    cases r with
    | nil => exact ⟨rfl, rfl⟩
    | cons c r => simp [hr c rfl]
  have htake : (t ++ r).takeWhile isNumber = t := by
    rw [List.takeWhile_append_of_pos hall, hd.1, List.append_nil]
  have hdrop : (t ++ r).dropWhile isNumber = r := by
    rw [List.dropWhile_append_of_pos hall, hd.2]
  have hk : ∀ k ∈ (keywords : List (Str × Json F)), dropKeyword k.1 (t ++ r) = none := by
    intro k hk
    simp only [keywords, List.mem_cons, List.not_mem_nil, or_false] at hk
    rcases hk with rfl | rfl | rfl | rfl | rfl | rfl
    all_goals first
      | exact dropKeyword_number hf rfl (.inl (by decide))
      | exact dropKeyword_number hf rfl (.inr (by decide))
  rw [readAtom, List.findSome?_eq_none_iff.mpr ?hnone]
  case hnone =>
    intro k hmem
    simp [hk k hmem]
  simp only [htake, hdrop]

theorem readAtom_int (n : ℤ) (hr : Delimited r) :
    readAtom (F := F) (intText n ++ r) = some (.int n, r) := by
  rw [readAtom_number (numberForm_intText n) hr, readNumber, numberForm_intText]
  simp [readInt_intText]

theorem readAtom_float (x : Double F) (hr : Delimited r) :
    readAtom (F := F) (renderFloat x ++ r) = some (.float x, r) := by
  cases x with
  | finite x =>
    have hf := FloatText.repr_form x
    rw [renderFloat, readAtom_number hf hr, readNumber, hf]
    simp [FloatText.ofText_repr]
  | nan => rfl
  | infinity => rfl
  | negInfinity => rfl

end Atoms

/-! ## Values -/

section Values

variable {F : Type} [FloatText F] (S : Style)

theorem val_of_isNumber {c : CodePoint} (h : isNumber c = true) :
    (43 ≤ c.val ∧ c.val ≤ 57) ∨ c.val = 69 ∨ c.val = 101 := by
  simp only [isNumber, isDigit, Bool.or_eq_true, Bool.and_eq_true, decide_eq_true_eq] at h
  rcases h with ((((h | rfl) | rfl) | rfl) | rfl) | rfl
  · exact .inl ⟨by omega, h.2⟩
  all_goals decide

/-- A text that starts a value: neither a blank nor a closing bracket. -/
def Starts (t : Str) : Prop :=
  ∃ c u, t = c :: u ∧ isSpace c = false ∧ c ≠ ofChar ']' ∧ c ≠ ofChar '}'

/-- A text that starts an atom. -/
def StartsAtom (t : Str) : Prop :=
  ∃ c u, t = c :: u ∧ c ≠ ofChar '"' ∧ c ≠ ofChar '[' ∧ c ≠ ofChar '{'

theorem starts_number {t : Str} {b : Bool} (h : numberForm t = some b) :
    Starts t ∧ StartsAtom t := by
  obtain ⟨hall, hne, -⟩ := of_numberForm h
  cases t with
  | nil => exact absurd rfl hne
  | cons c u =>
    have hc := val_of_isNumber (hall c (by simp))
    have hval : ∀ d : CodePoint, c.val ≠ d.val → c ≠ d := fun d hd he => hd (congrArg _ he)
    have hs : isSpace c = false := by
      simp only [isSpace, Bool.or_eq_false_iff, decide_eq_false_iff_not]
      omega
    have h₁ : (ofChar ']').val = 93 := rfl
    have h₂ : (ofChar '}').val = 125 := rfl
    have h₃ : (ofChar '"').val = 34 := rfl
    have h₄ : (ofChar '[').val = 91 := rfl
    have h₅ : (ofChar '{').val = 123 := rfl
    refine ⟨⟨c, u, rfl, hs, hval _ ?_, hval _ ?_⟩, ⟨c, u, rfl, hval _ ?_, hval _ ?_, hval _ ?_⟩⟩ <;>
      omega

theorem starts_float (x : Double F) : Starts (renderFloat x) ∧ StartsAtom (renderFloat x) := by
  cases x with
  | finite x => exact starts_number (FloatText.repr_form x)
  | _ =>
    exact ⟨⟨_, _, rfl, by decide, by decide, by decide⟩,
      ⟨_, _, rfl, by decide, by decide, by decide⟩⟩

theorem starts_render (v : Json F) : Starts (render S v) := by
  cases v with
  | null => exact ⟨_, _, rfl, by decide, by decide, by decide⟩
  | bool b => cases b <;> exact ⟨_, _, rfl, by decide, by decide, by decide⟩
  | int n => exact (starts_number (numberForm_intText n)).1
  | float x => exact (starts_float x).1
  | str s | bytes s => exact ⟨_, _, rfl, by decide, by decide, by decide⟩
  | arr items => exact ⟨_, _, rfl, by decide, by decide, by decide⟩
  | obj members => exact ⟨_, _, rfl, by decide, by decide, by decide⟩

theorem skipSpace_starts {t : Str} (h : Starts t) (r : Str) : skipSpace (t ++ r) = t ++ r := by
  obtain ⟨c, u, rfl, hc, -⟩ := h
  simp [skipSpace, hc]

/-- The blank after a separator. -/
def blank : Str := if S.spaced then [ofChar ' '] else []

theorem sep_eq (c : Char) : sep S c = ofChar c :: blank S := by
  unfold sep blank
  split <;> rfl

theorem skipSpace_blank {t : Str} (h : Starts t) (r : Str) :
    skipSpace (blank S ++ (t ++ r)) = t ++ r := by
  unfold blank
  split
  · have hs : isSpace (ofChar ' ') = true := by decide
    show skipSpace (ofChar ' ' :: (t ++ r)) = t ++ r
    rw [skipSpace, List.dropWhile_cons_of_pos hs]
    exact skipSpace_starts h r
  · exact skipSpace_starts h r

theorem readValue_atom {t r : Str} {n : ℕ} (h : StartsAtom t) :
    readValue (F := F) (n + 1) (t ++ r) = readAtom (t ++ r) := by
  obtain ⟨c, u, rfl, h₁, h₂, h₃⟩ := h
  rw [List.cons_append, readValue, if_neg h₁, if_neg h₂, if_neg h₃]

omit [FloatText F] in
theorem readKey_render {k t : Str} (hk : ∀ c ∈ k, IsScalar c) (ht : Starts t) (r : Str) :
    readKey (renderString S k ++ sep S ':' ++ t ++ r) = some (k, t ++ r) := by
  have hc : isSpace (ofChar ':') = false := by decide
  have hs : renderString S k ++ sep S ':' ++ t ++ r = ofChar '"' :: (k.flatMap (escape S) ++
      ofChar '"' :: (ofChar ':' :: (blank S ++ (t ++ r)))) := by
    simp [renderString, sep_eq]
  rw [hs, readKey, if_neg (not_not.mpr rfl), readString_render S hk]
  simp only [Option.bind_some, skipSpace, List.dropWhile_cons, hc]
  simp only [Bool.false_eq_true, if_false, if_true]
  exact congrArg (fun u => some (k, u)) (skipSpace_blank S ht r)

theorem length_sep_pos (c : Char) : 0 < (sep S c).length := by simp [sep_eq]

theorem length_pos_of_starts {t : Str} (h : Starts t) : 0 < t.length := by
  obtain ⟨c, u, rfl, -⟩ := h
  simp

theorem starts_joined {t : Str} (h : Starts t) (ts : List Str) : Starts (joined S (t :: ts)) := by
  cases ts with
  | nil => exact h
  | cons u ts =>
    obtain ⟨c, x, rfl, hc⟩ := h
    exact ⟨c, _, rfl, hc⟩

theorem starts_member (m : Str × Str) : Starts (member S m) :=
  ⟨_, _, rfl, by decide, by decide, by decide⟩

/-- After a value that is not the last one comes a comma, and then the next one. -/
theorem skipSpace_comma {t : Str} (ht : Starts t) (r : Str) :
    ∃ u, skipSpace (sep S ',' ++ (t ++ r)) = ofChar ',' :: u ∧ skipSpace u = t ++ r := by
  have hc : isSpace (ofChar ',') = false := by decide
  refine ⟨blank S ++ (t ++ r), ?_, skipSpace_blank S ht r⟩
  rw [sep_eq, List.cons_append, skipSpace, List.dropWhile_cons_of_neg (by simp [hc])]

theorem exists_fuel {v : Json F} {n : ℕ} (hn : 2 * (render S v).length ≤ n) :
    ∃ m, n = m + 1 := by
  have h := length_pos_of_starts (starts_render S v)
  exact Nat.exists_eq_add_one.mpr (by omega)

mutual

theorem readValue_render (hS : S.sortKeys = false) :
    ∀ (v : Json F) (n : ℕ) (r : Str), Plain v → 2 * (render S v).length ≤ n → Delimited r →
      readValue n (render S v ++ r) = some (v, r)
  | .null, n, r, _, hn, _ => by
    obtain ⟨m, rfl⟩ := exists_fuel S hn
    have hs : StartsAtom (lit "null") := ⟨_, _, rfl, by decide, by decide, by decide⟩
    rw [render, readValue_atom hs]
    rfl
  | .bool true, n, r, _, hn, _ => by
    obtain ⟨m, rfl⟩ := exists_fuel S hn
    have hs : StartsAtom (lit "true") := ⟨_, _, rfl, by decide, by decide, by decide⟩
    rw [render, if_pos rfl, readValue_atom hs]
    rfl
  | .bool false, n, r, _, hn, _ => by
    obtain ⟨m, rfl⟩ := exists_fuel S hn
    have hs : StartsAtom (lit "false") := ⟨_, _, rfl, by decide, by decide, by decide⟩
    rw [render, if_neg Bool.false_ne_true, readValue_atom hs]
    rfl
  | .int i, n, r, _, hn, hr => by
    obtain ⟨m, rfl⟩ := exists_fuel S hn
    rw [render, readValue_atom (starts_number (numberForm_intText i)).2, readAtom_int i hr]
  | .float x, n, r, _, hn, hr => by
    obtain ⟨m, rfl⟩ := exists_fuel S hn
    rw [render, readValue_atom (starts_float x).2, readAtom_float x hr]
  | .str s, n, r, hv, hn, _ => by
    obtain ⟨m, rfl⟩ := exists_fuel S hn
    have hs : render S (.str s : Json F) ++ r =
        ofChar '"' :: (s.flatMap (escape S) ++ ofChar '"' :: r) := by
      simp [render, renderString]
    rw [hs, readValue, if_pos rfl, readString_render S hv.1]
    rfl
  | .bytes _, _, _, hv, _, _ => hv.1.elim
  | .arr [], n, r, _, hn, _ => by
    obtain ⟨m, rfl⟩ := exists_fuel S hn
    have hq : ofChar '[' ≠ ofChar '"' := by decide
    have hb : isSpace (ofChar ']') = false := by decide
    show readValue (m + 1) (ofChar '[' :: ofChar ']' :: r) = _
    rw [readValue, if_neg hq, if_pos rfl]
    simp [skipSpace, hb]
  | .arr (v :: l), n, r, hv, hn, _ => by
    have hl : (render S (.arr (v :: l))).length =
        (joined S (renderItems S (v :: l))).length + 2 := by
      simp [render]
    obtain ⟨m, rfl⟩ := exists_fuel S hn
    have hq : ofChar '[' ≠ ofChar '"' := by decide
    have hs : render S (.arr (v :: l)) ++ r =
        ofChar '[' :: (joined S (renderItems S (v :: l)) ++ ofChar ']' :: r) := by
      simp [render]
    have hst := starts_joined S (starts_render S v) (renderItems S l)
    have hitems := readItems_render hS (v :: l) m r hv.2 (by omega) (by simp)
    obtain ⟨c, u, hj, hsp, hne, -⟩ := hst
    have hcu : joined S (renderItems S (v :: l)) = c :: u := hj
    rw [hcu, List.cons_append] at hitems
    rw [hs, hcu, readValue, if_neg hq, if_pos rfl]
    have hskip : skipSpace (c :: u ++ ofChar ']' :: r) = c :: (u ++ ofChar ']' :: r) := by
      simp [skipSpace, hsp]
    simp only [hskip, if_neg hne, hitems, Option.map_some]
  | .obj [], n, r, _, hn, _ => by
    obtain ⟨m, rfl⟩ := exists_fuel S hn
    have hq : ofChar '{' ≠ ofChar '"' := by decide
    have ha : ofChar '{' ≠ ofChar '[' := by decide
    have hb : isSpace (ofChar '}') = false := by decide
    have hs : render S (.obj [] : Json F) ++ r = ofChar '{' :: ofChar '}' :: r := by
      simp [render, hS, renderMembers, joined]
    rw [hs, readValue, if_neg hq, if_neg ha, if_pos rfl]
    simp [skipSpace, hb]
  | .obj (m :: l), n, r, hv, hn, _ => by
    have hs : render S (.obj (m :: l)) ++ r =
        ofChar '{' ::
          (joined S ((renderMembers S (m :: l)).map (member S)) ++ ofChar '}' :: r) := by
      simp [render, hS]
    have hl : (render S (.obj (m :: l))).length =
        (joined S ((renderMembers S (m :: l)).map (member S))).length + 2 := by
      simp [render, hS]
    obtain ⟨k, rfl⟩ := exists_fuel S hn
    have hq : ofChar '{' ≠ ofChar '"' := by decide
    have ha : ofChar '{' ≠ ofChar '[' := by decide
    have hst := starts_joined S (starts_member S (m.1, render S m.2))
      ((renderMembers S l).map (member S))
    have hmembers := readMembers_render hS (m :: l) k r hv.1.1 hv.2 (by omega) (by simp)
    obtain ⟨c, u, hj, hsp, -, hne⟩ := hst
    have hcu : joined S ((renderMembers S (m :: l)).map (member S)) = c :: u := hj
    rw [hcu, List.cons_append] at hmembers
    rw [hs, hcu, readValue, if_neg hq, if_neg ha, if_pos rfl]
    have hskip : skipSpace (c :: u ++ ofChar '}' :: r) = c :: (u ++ ofChar '}' :: r) := by
      simp [skipSpace, hsp]
    simp only [hskip, if_neg hne, hmembers, Option.map_some, Assoc.ofList_eq hv.1.2]

theorem readItems_render (hS : S.sortKeys = false) :
    ∀ (l : List (Json F)) (n : ℕ) (r : Str), AllItems plainHere l →
      2 * (joined S (renderItems S l)).length + 1 ≤ n → l ≠ [] →
      readItems n (joined S (renderItems S l) ++ ofChar ']' :: r) = some (l, r)
  | [], _, _, _, _, hne => absurd rfl hne
  | [v], n, r, hl, hn, _ => by
    obtain ⟨m, rfl⟩ := Nat.exists_eq_add_one.mpr (show 0 < n by omega)
    have hb : isSpace (ofChar ']') = false := by decide
    have hv := readValue_render hS v m (ofChar ']' :: r) hl.1
      (by simp only [renderItems, joined] at hn; omega) (delimited_cons (by decide) r)
    simp only [renderItems, joined]
    rw [readItems, hv]
    simp [skipSpace, hb]
  | v :: w :: l, n, r, hl, hn, _ => by
    obtain ⟨m, rfl⟩ := Nat.exists_eq_add_one.mpr (show 0 < n by omega)
    have hsep := length_sep_pos S ','
    have hj : joined S (renderItems S (v :: w :: l)) =
        render S v ++ sep S ',' ++ joined S (renderItems S (w :: l)) := rfl
    rw [hj, List.length_append, List.length_append] at hn
    have hv := readValue_render hS v m
      (sep S ',' ++ (joined S (renderItems S (w :: l)) ++ ofChar ']' :: r)) hl.1 (by omega)
      (by rw [sep_eq]; exact delimited_cons (by decide) _)
    have hrest := readItems_render hS (w :: l) m r hl.2 (by omega) (by simp)
    obtain ⟨u, hu, hsk⟩ := skipSpace_comma S
      (starts_joined S (starts_render S w) (renderItems S l)) (ofChar ']' :: r)
    have hcb : ofChar ',' ≠ ofChar ']' := by decide
    have hu' : skipSpace (sep S ',' ++ (joined S (renderItems S (w :: l)) ++ ofChar ']' :: r)) =
        ofChar ',' :: u := hu
    have hsk' : skipSpace u = joined S (renderItems S (w :: l)) ++ ofChar ']' :: r := hsk
    rw [hj, List.append_assoc, List.append_assoc, readItems, hv]
    simp only [Option.bind_eq_bind, Option.bind_some, hu', if_neg hcb, if_true, hsk', hrest,
      Option.map_some]

theorem readMembers_render (hS : S.sortKeys = false) :
    ∀ (l : List (Str × Json F)) (n : ℕ) (r : Str),
      (∀ k ∈ Assoc.keys l, ∀ c ∈ k, IsScalar c) → AllMembers plainHere l →
      2 * (joined S ((renderMembers S l).map (member S))).length + 1 ≤ n → l ≠ [] →
      readMembers n (joined S ((renderMembers S l).map (member S)) ++ ofChar '}' :: r) = some (l, r)
  | [], _, _, _, _, _, hne => absurd rfl hne
  | [(k, v)], n, r, hks, hl, hn, _ => by
    obtain ⟨m, rfl⟩ := Nat.exists_eq_add_one.mpr (show 0 < n by omega)
    have hb : isSpace (ofChar '}') = false := by decide
    have hlen : (member S (k, render S v)).length ≥ (render S v).length := by
      simp only [member, List.length_append]
      omega
    have hj : joined S ((renderMembers S [(k, v)]).map (member S)) = member S (k, render S v) := rfl
    rw [hj] at hn
    have hv := readValue_render hS v m (ofChar '}' :: r) hl.1 (by omega)
      (delimited_cons (by decide) r)
    have hk := readKey_render S (hks k (by simp)) (starts_render S v) (ofChar '}' :: r)
    rw [hj, member, readMembers, hk]
    simp only [Option.bind_eq_bind, Option.bind_some]
    rw [hv]
    simp [skipSpace, hb]
  | (k, v) :: w :: l, n, r, hks, hl, hn, _ => by
    obtain ⟨m, rfl⟩ := Nat.exists_eq_add_one.mpr (show 0 < n by omega)
    have hsep := length_sep_pos S ','
    have hlen : (member S (k, render S v)).length ≥ (render S v).length := by
      simp only [member, List.length_append]
      omega
    have hj : joined S ((renderMembers S ((k, v) :: w :: l)).map (member S)) =
        member S (k, render S v) ++ sep S ',' ++
          joined S ((renderMembers S (w :: l)).map (member S)) := rfl
    rw [hj, List.length_append, List.length_append] at hn
    have hv := readValue_render hS v m
      (sep S ',' ++ (joined S ((renderMembers S (w :: l)).map (member S)) ++ ofChar '}' :: r))
      hl.1 (by omega) (by rw [sep_eq]; exact delimited_cons (by decide) _)
    have hrest := readMembers_render hS (w :: l) m r (fun k hk => hks k (.tail _ hk)) hl.2
      (by omega) (by simp)
    obtain ⟨u, hu, hsk⟩ := skipSpace_comma S (starts_joined S
      (starts_member S (w.1, render S w.2)) ((renderMembers S l).map (member S))) (ofChar '}' :: r)
    have hk := readKey_render S (hks k (by simp)) (starts_render S v)
      (sep S ',' ++ (joined S ((renderMembers S (w :: l)).map (member S)) ++ ofChar '}' :: r))
    have hcb : ofChar ',' ≠ ofChar '}' := by decide
    have hu' : skipSpace (sep S ',' ++
        (joined S ((renderMembers S (w :: l)).map (member S)) ++ ofChar '}' :: r)) =
        ofChar ',' :: u := hu
    have hsk' : skipSpace u =
        joined S ((renderMembers S (w :: l)).map (member S)) ++ ofChar '}' :: r := hsk
    rw [hj, List.append_assoc, List.append_assoc, member, readMembers, hk]
    simp only [Option.bind_eq_bind, Option.bind_some]
    rw [hv]
    simp only [Option.bind_some, hu', if_neg hcb, if_true, hsk', hrest, Option.map_some]

end

/-- A value is read back from its text. -/
theorem parse_render (hS : S.sortKeys = false) {v : Json F} (hv : Plain v) :
    parse (render S v) = some v := by
  have hs := skipSpace_starts (starts_render S v) []
  have hr := readValue_render S hS v (2 * (render S v).length + 1) [] hv (by omega) delimited_nil
  rw [List.append_nil] at hs hr
  rw [parse, hs, hr]
  rfl

end Values

/-! ## What texts are read as -/

section Textual

variable {F : Type} [FloatText F]

theorem textual_readAtom {s r : Str} {v : Json F} (h : readAtom s = some (v, r)) : Textual v := by
  unfold readAtom at h
  split at h
  · next r' hr =>
    obtain rfl := Option.some.inj h
    obtain ⟨⟨k, w⟩, hmem, hw⟩ := List.exists_of_findSome?_eq_some hr
    obtain ⟨t, -, ht⟩ := Option.map_eq_some_iff.mp hw
    cases ht
    simp only [keywords, List.mem_cons, Prod.mk.injEq, List.not_mem_nil, or_false] at hmem
    rcases hmem with ⟨-, rfl⟩ | ⟨-, rfl⟩ | ⟨-, rfl⟩ | ⟨-, rfl⟩ | ⟨-, rfl⟩ | ⟨-, rfl⟩ <;> trivial
  · obtain ⟨w, hw, hv⟩ := Option.map_eq_some_iff.mp h
    cases hv
    obtain ⟨isFloat, -, hw⟩ := Option.bind_eq_some_iff.mp hw
    split at hw
    · cases hw
      trivial
    · obtain ⟨i, -, rfl⟩ := Option.map_eq_some_iff.mp hw
      trivial

/-- No text is read as a value with a byte string in it; the induction is on the fuel. -/
theorem textual_read (n : ℕ) :
    (∀ (s r : Str) (v : Json F), readValue n s = some (v, r) → Textual v) ∧
      (∀ (s r : Str) (l : List (Json F)), readItems n s = some (l, r) → ∀ v ∈ l, Textual v) ∧
      ∀ (s r : Str) (l : List (Str × Json F)), readMembers n s = some (l, r) →
        ∀ m ∈ l, Textual m.2 := by
  induction n with
  | zero =>
    refine ⟨fun s r v h => ?_, fun s r l h => ?_, fun s r l h => ?_⟩
    · rw [readValue] at h
      cases h
    · rw [readItems] at h
      cases h
    · rw [readMembers] at h
      cases h
  | succ n ih =>
    obtain ⟨hvalue, hitems, hmembers⟩ := ih
    refine ⟨fun s r v h => ?_, fun s r l h => ?_, fun s r l h => ?_⟩
    · cases s with
      | nil =>
        rw [readValue] at h
        cases h
        simp
      | cons c t =>
        rw [readValue] at h
        split_ifs at h
        · obtain ⟨p, -, hp⟩ := Option.map_eq_some_iff.mp h
          cases hp
          trivial
        · split at h
          · cases h
          · split_ifs at h
            · cases h
              exact all_arr.mpr ⟨trivial, by simp⟩
            · obtain ⟨p, hp, hv⟩ := Option.map_eq_some_iff.mp h
              cases hv
              exact all_arr.mpr ⟨trivial, hitems _ _ _ hp⟩
        · split at h
          · cases h
          · split_ifs at h
            · cases h
              exact all_obj.mpr ⟨trivial, by simp⟩
            · obtain ⟨p, hp, hv⟩ := Option.map_eq_some_iff.mp h
              cases hv
              exact all_obj.mpr
                ⟨trivial, fun m hm => hmembers _ _ _ hp m (Assoc.of_mem_ofList hm)⟩
        · exact textual_readAtom h
    · rw [readItems] at h
      obtain ⟨⟨v, t⟩, hv, h⟩ := Option.bind_eq_some_iff.mp h
      dsimp only at h
      split at h
      · cases h
      · split_ifs at h
        · cases h
          simpa using hvalue _ _ _ hv
        · obtain ⟨p, hp, hl⟩ := Option.map_eq_some_iff.mp h
          cases hl
          exact List.forall_mem_cons.mpr ⟨hvalue _ _ _ hv, hitems _ _ _ hp⟩
    · rw [readMembers] at h
      obtain ⟨⟨k, t⟩, -, h⟩ := Option.bind_eq_some_iff.mp h
      obtain ⟨⟨v, t'⟩, hv, h⟩ := Option.bind_eq_some_iff.mp h
      dsimp only at h
      split at h
      · cases h
      · split_ifs at h
        · cases h
          simpa using hvalue _ _ _ hv
        · obtain ⟨p, hp, hl⟩ := Option.map_eq_some_iff.mp h
          cases hl
          exact List.forall_mem_cons.mpr ⟨hvalue _ _ _ hv, hmembers _ _ _ hp⟩

theorem textual_parse {s : Str} {v : Json F} (h : parse s = some v) : Textual v := by
  obtain ⟨⟨w, r⟩, hw, h⟩ := Option.bind_eq_some_iff.mp h
  dsimp only at h
  split_ifs at h
  cases h
  exact (textual_read _).1 _ _ _ hw

end Textual

end Json
