import Arcane.Lib.Digits
import Arcane.X402.Signer
import Mathlib.Data.List.DropRight

/-!
# Amounts as text

`formatUsdc` (`scripts/x402/circle_gateway.ts`) spells base units for a reader, `usdcToBaseUnits`
reads a spelling. The spelling is right for amounts that are not negative and for whole ones
(`usdcToBaseUnits_formatUsdc_iff`): `%` keeps the sign of a negative amount, and it ends up among
the fraction digits.
-/

namespace Arcane
namespace X402

open Text

/-- `s.padStart(n, "0")`. -/
def padStart (n : ℕ) (s : Str) : Str := List.replicate (n - s.length) (ofChar '0') ++ s

/-- `s.replace(/0+$/, "")`. -/
def stripZeros (s : Str) : Str := s.rdropWhile (· = ofChar '0')

/-- A point and the digits after it, if there are any. -/
def pointed (frac : Str) : Str := if frac.length > 0 then ofChar '.' :: frac else []

def formatUsdc (units : ℤ) : Str :=
  let whole := units.tdiv 1000000
  let frac := stripZeros (padStart 6 (intText (units.tmod 1000000)))
  intText whole ++ pointed frac

/-- What follows the point of a spelling. -/
def fractionText (amount : Str) : Str :=
  ((trim jsSpace amount).dropWhile (· ≠ ofChar '.')).tail

section Zeros

variable {s t : Str}

/-- What is stripped is zeros. -/
theorem stripZeros_append (s : Str) :
    stripZeros s ++ List.replicate (s.length - (stripZeros s).length) (ofChar '0') = s := by
  have hs : stripZeros s ++ s.rtakeWhile (· = ofChar '0') = s :=
    List.rdropWhile_append_rtakeWhile ..
  have hz : s.rtakeWhile (· = ofChar '0') =
      List.replicate (s.rtakeWhile (· = ofChar '0')).length (ofChar '0') := by
    rw [List.eq_replicate_iff]
    exact ⟨rfl, fun c hc => by simpa using List.mem_rtakeWhile_imp hc⟩
  have hl := congrArg List.length hs
  rw [List.length_append] at hl
  rw [show s.length - (stripZeros s).length = (s.rtakeWhile (· = ofChar '0')).length by omega, ← hz]
  exact hs

theorem mem_of_mem_stripZeros {c : CodePoint} (h : c ∈ stripZeros s) : c ∈ s :=
  (List.rdropWhile_prefix _ s).subset h

theorem length_stripZeros_le (s : Str) : (stripZeros s).length ≤ s.length :=
  (List.rdropWhile_prefix _ s).length_le

theorem eq_of_stripZeros (hl : s.length = t.length) (h : stripZeros s = stripZeros t) : s = t := by
  rw [← stripZeros_append s, ← stripZeros_append t, h, hl]

/-- A character that is no zero ends what is stripped. -/
theorem stripZeros_append_cons {c : CodePoint} (hc : c ≠ ofChar '0') (s t : Str) :
    stripZeros (s ++ c :: t) = s ++ c :: stripZeros t := by
  induction t using List.reverseRecOn with
  | nil => simp [stripZeros, List.rdropWhile_concat_neg, hc]
  | append_singleton t x ih =>
    have hs : s ++ c :: (t ++ [x]) = (s ++ c :: t) ++ [x] := by simp
    rw [hs]
    by_cases hx : x = ofChar '0'
    · rw [stripZeros, List.rdropWhile_concat_pos _ _ _ (by simpa using hx), ← stripZeros, ih,
        stripZeros, stripZeros, List.rdropWhile_concat_pos _ _ _ (by simpa using hx)]
    · rw [stripZeros, List.rdropWhile_concat_neg _ _ _ (by simpa using hx), stripZeros,
        List.rdropWhile_concat_neg _ _ _ (by simpa using hx), hs]

end Zeros

section Reading

theorem mem_pointed {c : CodePoint} {frac : Str} (h : c ∈ pointed frac) :
    c = ofChar '.' ∨ c ∈ frac := by
  rw [pointed] at h
  split at h
  · exact List.mem_cons.mp h
  · exact absurd h (by simp)

/-- Signs, points and digits are no white space. -/
theorem jsSpace_eq_false {c : CodePoint} (h : 45 ≤ c.val ∧ c.val ≤ 57) : jsSpace c = false := by
  rw [jsSpace, Bool.or_eq_false_iff]
  refine ⟨decide_eq_false fun hc => ?_, ?_⟩
  · simp only [List.mem_cons, List.not_mem_nil, or_false] at hc
    omega
  · rw [Bool.and_eq_false_iff]
    left
    exact decide_eq_false (by omega)

variable {amount frac : Str} {w f : ℕ}

/-- The sign has no part in what follows the point. -/
theorem fractionText_eq (amount : Str) :
    fractionText amount =
      ((if (trim jsSpace amount).head? = some (ofChar '-') then (trim jsSpace amount).tail
        else trim jsSpace amount).dropWhile (· ≠ ofChar '.')).tail := by
  rw [fractionText]
  split
  next h =>
    obtain ⟨t, ht⟩ := List.head?_eq_some_iff.mp h
    rw [ht, List.dropWhile_cons_of_pos (by decide), List.tail_cons]
  next => rfl

/-- What an accepted text says: a whole part and six digits. -/
theorem usdcToBaseUnits_ok {v : ℤ} (h : usdcToBaseUnits amount = .ok v) :
    (∀ c ∈ fractionText amount, 48 ≤ c.val ∧ c.val ≤ 57) ∧
    ∃ w f : ℕ, f < 1000000 ∧ (f = 0 ↔ ∀ c ∈ fractionText amount, c = ofChar '0') ∧
      v = if (trim jsSpace amount).head? = some (ofChar '-') then -((w * 1000000 + f : ℕ) : ℤ)
        else ((w * 1000000 + f : ℕ) : ℤ) := by
  unfold usdcToBaseUnits at h
  simp only [← fractionText_eq] at h
  split at h
  next w f hw hf =>
    split_ifs at h with hneg hpoint hlen hpoint hlen
    all_goals
      have hf := readBase_of_readNat hf
      have hlen6 : (fractionText amount ++
          List.replicate (usdcDecimals - (fractionText amount).length) (ofChar '0')).length =
            6 := by
        rw [List.length_append, List.length_replicate]
        simp only [usdcDecimals] at hlen ⊢
        omega
      have hlt := readBase_lt hf
      rw [hlen6] at hlt
      have hzero := readBase_eq_zero hf
      simp only [List.forall_mem_append, true_and] at hzero
      have hv := Except.ok.inj h
      refine ⟨fun c hc => digits_of_readBase hf c (List.mem_append_left _ hc), w, f, by omega, ?_,
        ?_⟩
      · rw [hzero]
        exact and_iff_left fun c hc => (List.mem_replicate.mp hc).2
    · rw [if_pos hneg, ← hv]
      simp [usdcDecimals]
    · rw [if_neg hneg, ← hv]
      simp [usdcDecimals]
  next => exact absurd h (by simp)

/-- The text `-?w(.frac)?` is read back. -/
theorem usdcToBaseUnits_spelling (negative : Bool)
    (hf : readNat (frac ++ List.replicate (6 - frac.length) (ofChar '0')) = some f)
    (hlen : frac.length ≤ 6) :
    usdcToBaseUnits ((if negative then lit "-" else []) ++ (natText w ++ pointed frac)) =
      .ok (if negative then -(w * 1000000 + f : ℤ) else (w * 1000000 + f : ℤ)) := by
  have hfrac : ∀ c ∈ frac, 48 ≤ c.val ∧ c.val ≤ 57 := fun c hc =>
    digits_of_readBase (readBase_of_readNat hf) c (List.mem_append_left _ hc)
  have hpoint : (ofChar '.').val = 46 := rfl
  have hminus : (ofChar '-').val = 45 := rfl
  have hval : ∀ c ∈ natText w ++ pointed frac, 46 ≤ c.val ∧ c.val ≤ 57 := by
    intro c hc
    rcases List.mem_append.mp hc with hc | hc
    · have := digit_of_mem_natText c hc
      omega
    · rcases mem_pointed hc with rfl | hc
      · omega
      · have := hfrac c hc
        omega
  have htrim : trim jsSpace ((if negative then lit "-" else []) ++ (natText w ++ pointed frac)) =
      (if negative then lit "-" else []) ++ (natText w ++ pointed frac) := by
    refine trim_eq_self fun c hc => jsSpace_eq_false ?_
    rcases List.mem_append.mp hc with hc | hc
    · have : c = ofChar '-' := by
        split at hc
        · exact List.mem_singleton.mp hc
        · exact absurd hc (by simp)
      rw [this]
      omega
    · have := hval c hc
      omega
  have hhead : ¬(natText w ++ pointed frac).head? = some (ofChar '-') := by
    intro h
    have := hval _ (List.mem_of_mem_head? h)
    omega
  have hdot : ∀ c ∈ natText w, decide (c ≠ ofChar '.') = true := by
    intro c hc
    have := digit_of_mem_natText c hc
    refine decide_eq_true fun h => ?_
    rw [h] at this
    omega
  have hwhole : (natText w ++ pointed frac).takeWhile (· ≠ ofChar '.') = natText w := by
    rw [List.takeWhile_append_of_pos hdot]
    cases frac <;> simp [pointed]
  have hrest : ((natText w ++ pointed frac).dropWhile (· ≠ ofChar '.')).tail = frac := by
    rw [List.dropWhile_append_of_pos hdot]
    cases frac <;> simp [pointed]
  have habs : (if negative = true then
        ((if negative then lit "-" else []) ++ (natText w ++ pointed frac)).tail
      else (if negative then lit "-" else []) ++ (natText w ++ pointed frac)) =
      natText w ++ pointed frac := by
    cases negative <;> rfl
  have hsign : ((if negative then lit "-" else []) ++ (natText w ++ pointed frac)).head? =
      some (ofChar '-') ↔ negative = true := by
    cases negative with
    | false => simpa using hhead
    | true => simp [lit]
  have hempty : ¬((natText w ++ pointed frac).contains (ofChar '.') ∧ frac.isEmpty) := by
    rintro ⟨hc, he⟩
    rw [List.isEmpty_iff] at he
    rw [he, show pointed [] = [] from rfl, List.append_nil, List.contains_iff_mem] at hc
    exact absurd rfl (of_decide_eq_true (hdot _ hc))
  unfold usdcToBaseUnits
  simp only [htrim, hsign, habs, hwhole, hrest, readNat_natText, usdcDecimals, hf, hempty,
    Nat.not_lt_of_le hlen, if_false]
  rfl

end Reading

section Formatting

variable {n r : ℕ}

theorem readNat_padStart (k n : ℕ) : readNat (padStart k (natText n)) = some n := by
  have hzeros (k : ℕ) : readBase 10 digitVal 0 (List.replicate k (ofChar '0')) = some 0 := by
    induction k with
    | zero => rfl
    | succ k ih => exact ih
  rw [readNat, readDigits, if_neg (by simp [padStart, natText_ne_nil]), padStart, readBase_append,
    hzeros, Option.bind_some, readBase_natText]

theorem length_padStart {s : Str} {k : ℕ} (h : s.length ≤ k) : (padStart k s).length = k := by
  rw [padStart, List.length_append, List.length_replicate]
  omega

/-- The text of `-k`. -/
theorem intText_neg (h : n ≠ 0) : intText (-(n : ℤ)) = ofChar '-' :: natText n := by
  cases n with
  | zero => exact absurd rfl h
  | succ n => rfl

theorem formatUsdc_natCast (n : ℕ) :
    formatUsdc n =
      natText (n / 1000000) ++ pointed (stripZeros (padStart 6 (natText (n % 1000000)))) :=
  rfl

theorem formatUsdc_neg (n : ℕ) :
    formatUsdc (-(n : ℤ)) = intText (-((n / 1000000 : ℕ) : ℤ)) ++
      pointed (stripZeros (padStart 6 (intText (-((n % 1000000 : ℕ) : ℤ))))) := by
  rw [formatUsdc, Int.neg_tdiv, Int.neg_tmod]
  rfl

/-- The digits that are left when the zeros at their end go. -/
theorem usdcToBaseUnits_formatUsdc_natCast (n : ℕ) : usdcToBaseUnits (formatUsdc n) = .ok n := by
  have hlen : (padStart 6 (natText (n % 1000000))).length = 6 :=
    length_padStart (length_natText_le (by omega))
  have hstrip := length_stripZeros_le (padStart 6 (natText (n % 1000000)))
  have hf : readNat (stripZeros (padStart 6 (natText (n % 1000000))) ++
      List.replicate (6 - (stripZeros (padStart 6 (natText (n % 1000000)))).length) (ofChar '0')) =
      some (n % 1000000) := by
    have := stripZeros_append (padStart 6 (natText (n % 1000000)))
    rw [hlen] at this
    rw [this, readNat_padStart]
  have h := usdcToBaseUnits_spelling (w := n / 1000000) false hf (by omega)
  rw [formatUsdc_natCast]
  refine h.trans (congrArg Except.ok ?_)
  rw [if_neg Bool.false_ne_true]
  omega

/-- A whole amount has no fraction digits, with or without a sign. -/
theorem usdcToBaseUnits_formatUsdc_neg (h : 1000000 ∣ n) :
    usdcToBaseUnits (formatUsdc (-(n : ℤ))) = .ok (-(n : ℤ)) := by
  obtain ⟨k, rfl⟩ := h
  by_cases hk : k = 0
  · rw [hk]
    exact usdcToBaseUnits_formatUsdc_natCast 0
  · have hspell := @usdcToBaseUnits_spelling [] k 0 true rfl (by simp)
    have hnone : stripZeros (padStart 6 (intText (-((0 : ℕ) : ℤ)))) = [] := by
      rw [show intText (-((0 : ℕ) : ℤ)) = [ofChar '0'] from natText_of_lt (by decide)]
      rfl
    rw [formatUsdc_neg, Nat.mul_div_cancel_left k (by decide), Nat.mul_mod_right, intText_neg hk,
      hnone]
    refine Eq.trans hspell (congrArg Except.ok ?_)
    rw [if_pos rfl]
    omega

/-- The digits after the point of a negative amount that is not whole: the sign is among them. -/
theorem stripZeros_neg (h : r ≠ 0) :
    stripZeros (padStart 6 (intText (-(r : ℤ)))) =
      List.replicate (5 - (natText r).length) (ofChar '0') ++
        ofChar '-' :: stripZeros (natText r) := by
  rw [intText_neg h, padStart, stripZeros_append_cons (by decide), List.length_cons,
    Nat.add_sub_add_right 5 1]

theorem formatUsdc_neg_of_not_dvd (h : ¬1000000 ∣ n) :
    formatUsdc (-(n : ℤ)) = intText (-((n / 1000000 : ℕ) : ℤ)) ++ ofChar '.' ::
      (List.replicate (5 - (natText (n % 1000000)).length) (ofChar '0') ++
        ofChar '-' :: stripZeros (natText (n % 1000000))) := by
  rw [formatUsdc_neg, stripZeros_neg (by omega), pointed,
    if_pos (by rw [List.length_append, List.length_cons]; omega)]

theorem not_mem_intText (z : ℤ) : ofChar '.' ∉ intText z := by
  intro h
  have := sign_of_mem_intText _ h
  have hv : (ofChar '.').val = 46 := rfl
  omega

/-- There is nothing to trim. -/
theorem trim_formatUsdc (u : ℤ) : trim jsSpace (formatUsdc u) = formatUsdc u := by
  refine trim_eq_self fun c hc => jsSpace_eq_false ?_
  have hzero : (ofChar '0').val = 48 := rfl
  have hpoint : (ofChar '.').val = 46 := rfl
  rcases List.mem_append.mp hc with hc | hc
  · have := sign_of_mem_intText c hc
    omega
  · rcases mem_pointed hc with rfl | hc
    · omega
    · rcases List.mem_append.mp (mem_of_mem_stripZeros hc) with hc | hc
      · rw [(List.mem_replicate.mp hc).2]
        omega
      · have := sign_of_mem_intText c hc
        omega

/-- A stray sign is refused. -/
theorem usdcToBaseUnits_formatUsdc_stray (h : ¬1000000 ∣ n) (v : ℤ) :
    usdcToBaseUnits (formatUsdc (-(n : ℤ))) ≠ .ok v := by
  intro hok
  have hdigits := (usdcToBaseUnits_ok hok).1 (ofChar '-')
  have hminus : (ofChar '-').val = 45 := rfl
  have hdot : ∀ c ∈ intText (-((n / 1000000 : ℕ) : ℤ)), decide (c ≠ ofChar '.') = true :=
    fun c hc => decide_eq_true fun he => not_mem_intText _ (he ▸ hc)
  refine absurd (hdigits ?_) (by omega)
  rw [fractionText, trim_formatUsdc, formatUsdc_neg_of_not_dvd h, List.dropWhile_append_of_pos hdot]
  simp

theorem usdcToBaseUnits_formatUsdc_iff (u : ℤ) :
    usdcToBaseUnits (formatUsdc u) = .ok u ↔ 0 ≤ u ∨ 1000000 ∣ u := by
  obtain ⟨n, rfl | rfl⟩ := Int.eq_nat_or_neg u
  · exact iff_of_true (usdcToBaseUnits_formatUsdc_natCast n) (.inl (by omega))
  · by_cases h : 1000000 ∣ n
    · exact iff_of_true (usdcToBaseUnits_formatUsdc_neg h) (.inr (by omega))
    · exact iff_of_false (usdcToBaseUnits_formatUsdc_stray h _) (by omega)

end Formatting

section Shared

variable {m n r : ℕ}

theorem lt_length_natText {k : ℕ} (h : 10 ^ k ≤ n) : k < (natText n).length := by
  by_contra hle
  have hpow : 10 ^ (natText n).length ≤ 10 ^ k := Nat.pow_le_pow_right (by decide) (by omega)
  have := lt_pow_length_natText n
  omega

theorem natText_mul_ten (h : 0 < r) : natText (10 * r) = natText r ++ [ofChar '0'] := by
  rw [natText, if_neg (by omega), Nat.mul_div_cancel_left r (by decide)]
  congr 2
  rw [zero_iff_val]
  show 48 + 10 * r % 10 = 48
  omega

theorem stripZeros_mul_ten (h : 0 < r) :
    stripZeros (natText (10 * r)) = stripZeros (natText r) := by
  rw [natText_mul_ten h, stripZeros, List.rdropWhile_concat_pos _ _ _ (by simp), ← stripZeros]

/-- A number that ends in no zero keeps all its digits. -/
theorem dvd_of_length_stripZeros (h : (stripZeros (natText r)).length < (natText r).length) :
    10 ∣ r := by
  by_contra hr
  have hlast : digitChar r ≠ ofChar '0' := by
    rw [Ne, zero_iff_val]
    show ¬48 + r % 10 = 48
    omega
  have hkeep (s : Str) : stripZeros (s ++ [digitChar r]) = s ++ [digitChar r] :=
    List.rdropWhile_concat_neg _ _ _ (by simpa using hlast)
  rw [natText] at h
  split at h
  · have := hkeep []
    rw [List.nil_append] at this
    rw [this] at h
    exact Nat.lt_irrefl _ h
  · rw [hkeep] at h
    exact Nat.lt_irrefl _ h

theorem intText_neg_inj (h : intText (-(m : ℤ)) = intText (-(n : ℤ))) : m = n := by
  have hsign (k : ℕ) : natText 0 ≠ ofChar '-' :: natText k := by
    rw [natText_of_lt (by decide)]
    intro h
    exact absurd (List.cons.inj h).1 (by decide)
  by_cases hm : m = 0 <;> by_cases hn : n = 0
  · rw [hm, hn]
  · rw [hm, intText_neg hn] at h
    exact absurd h (hsign n)
  · rw [hn, intText_neg hm] at h
    exact absurd h.symm (hsign m)
  · rw [intText_neg hm, intText_neg hn] at h
    exact natText_inj (List.cons.inj h).2

/-- Two negative amounts that are not whole have the same text when whole part, zeros before the
sign and stripped digits agree. -/
theorem formatUsdc_neg_eq_iff (hm : ¬1000000 ∣ m) (hn : ¬1000000 ∣ n) :
    formatUsdc (-(m : ℤ)) = formatUsdc (-(n : ℤ)) ↔
      m / 1000000 = n / 1000000 ∧
      5 - (natText (m % 1000000)).length = 5 - (natText (n % 1000000)).length ∧
      stripZeros (natText (m % 1000000)) = stripZeros (natText (n % 1000000)) := by
  have hminus (k : ℕ) : ofChar '-' ∉ List.replicate k (ofChar '0') := by
    rw [List.mem_replicate]
    exact fun h => absurd h.2 (by decide)
  have hdigits {c : CodePoint} (hc : c ∈ stripZeros (natText (m % 1000000))) : 48 ≤ c.val :=
    (digit_of_mem_natText c (mem_of_mem_stripZeros hc)).1
  have hpoint : ofChar '.' ∉ List.replicate (5 - (natText (m % 1000000)).length) (ofChar '0') ++
      ofChar '-' :: stripZeros (natText (m % 1000000)) := by
    rw [List.mem_append, List.mem_cons, List.mem_replicate]
    rintro (⟨-, h⟩ | h | h)
    · exact absurd h (by decide)
    · exact absurd h (by decide)
    · exact absurd (hdigits h) (by decide)
  rw [formatUsdc_neg_of_not_dvd hm, formatUsdc_neg_of_not_dvd hn,
    List.append_cons_inj_of_notMem (not_mem_intText _) hpoint,
    List.append_cons_inj_of_notMem (hminus _) fun h => absurd (hdigits h) (by decide)]
  constructor
  · rintro ⟨hq, -, hk, -, hs⟩
    exact ⟨intText_neg_inj hq, by simpa using congrArg List.length hk, hs⟩
  · rintro ⟨hq, hk, hs⟩
    exact ⟨by rw [hq], rfl, by rw [hk], rfl, hs⟩

/-- An amount that shares its text is negative and not whole, and so is the other. -/
theorem not_right_of_shared {u v : ℤ} (hne : v ≠ u) (h : formatUsdc v = formatUsdc u) :
    ¬(0 ≤ u ∨ 1000000 ∣ u) := by
  intro hu
  have hok := (usdcToBaseUnits_formatUsdc_iff u).mpr hu
  rw [← h] at hok
  by_cases hv : 0 ≤ v ∨ 1000000 ∣ v
  · have := (usdcToBaseUnits_formatUsdc_iff v).mpr hv
    exact hne (Except.ok.inj (this.symm.trans hok))
  · obtain ⟨n, rfl | rfl⟩ := Int.eq_nat_or_neg v
    · omega
    · exact usdcToBaseUnits_formatUsdc_stray (by omega) u hok

/-- A last zero after five digits is lost, and moves no other. -/
theorem formatUsdc_mul_ten (q : ℕ) (h₁ : 10000 ≤ r) (h₂ : r < 100000) :
    formatUsdc (-((q * 1000000 + 10 * r : ℕ) : ℤ)) = formatUsdc (-((q * 1000000 + r : ℕ) : ℤ)) := by
  have hlen := lt_length_natText (k := 4) h₁
  have hlen' := lt_length_natText (n := 10 * r) (k := 5) (by omega)
  rw [formatUsdc_neg_eq_iff (by omega) (by omega),
    show (q * 1000000 + 10 * r) % 1000000 = 10 * r by omega,
    show (q * 1000000 + r) % 1000000 = r by omega]
  exact ⟨by omega, by omega, stripZeros_mul_ten (by omega)⟩

/-- The digits after the point, where two amounts have the same text. -/
theorem digits_of_shared {s : ℕ} (hr : r < 1000000) (hs : s < 1000000) (hne : r ≠ s)
    (hlen : 5 - (natText r).length = 5 - (natText s).length)
    (hstrip : stripZeros (natText r) = stripZeros (natText s)) :
    10000 ≤ r ∧ r < 100000 ∨ 100000 ≤ r ∧ 10 ∣ r := by
  have hne' : (natText r).length ≠ (natText s).length := fun h =>
    hne (natText_inj (eq_of_stripZeros h hstrip))
  have hr6 := length_natText_le (k := 5) hr
  have hs6 := length_natText_le (k := 5) hs
  have hlow (h : 4 < (natText r).length) : 10000 ≤ r := by
    by_contra hlt
    have := length_natText_le (n := r) (k := 3) (by omega)
    omega
  by_cases h5 : (natText r).length = 5
  · have := lt_pow_length_natText r
    rw [h5] at this
    exact .inl ⟨hlow (by omega), by omega⟩
  · have h6 : (natText r).length = 6 := by omega
    right
    constructor
    · by_contra hlt
      have := length_natText_le (n := r) (k := 4) (by omega)
      omega
    · refine dvd_of_length_stripZeros ?_
      have := length_stripZeros_le (natText s)
      rw [hstrip]
      omega

/-- The amounts whose text another amount has too: negative ones, whose digits after the point are
five, or six with a zero at the end. -/
theorem exists_formatUsdc_eq_iff (u : ℤ) :
    (∃ v, v ≠ u ∧ formatUsdc v = formatUsdc u) ↔
      u < 0 ∧ (10000 ≤ u.natAbs % 1000000 ∧ u.natAbs % 1000000 < 100000 ∨
        100000 ≤ u.natAbs % 1000000 ∧ 10 ∣ u.natAbs % 1000000) := by
  constructor
  · rintro ⟨v, hne, h⟩
    have hu := not_right_of_shared hne h
    have hv := not_right_of_shared hne.symm h.symm
    obtain ⟨n, rfl | rfl⟩ := Int.eq_nat_or_neg u
    · omega
    obtain ⟨m, rfl | rfl⟩ := Int.eq_nat_or_neg v
    · omega
    obtain ⟨hq, hlen, hstrip⟩ := (formatUsdc_neg_eq_iff (by omega) (by omega)).mp h
    rw [Int.natAbs_neg, Int.natAbs_natCast]
    exact ⟨by omega, digits_of_shared (by omega) (by omega) (by omega) hlen.symm hstrip.symm⟩
  · rintro ⟨hneg, hdigits⟩
    obtain ⟨n, rfl | rfl⟩ := Int.eq_nat_or_neg u
    · omega
    rw [Int.natAbs_neg, Int.natAbs_natCast] at hdigits
    rcases hdigits with ⟨h₁, h₂⟩ | ⟨h₁, k, hk⟩
    · refine ⟨_, ?_, (formatUsdc_mul_ten (n / 1000000) h₁ h₂).trans ?_⟩
      · omega
      · rw [show n / 1000000 * 1000000 + n % 1000000 = n by omega]
    · refine ⟨_, ?_,
        (formatUsdc_mul_ten (n / 1000000) (r := k) (by omega) (by omega)).symm.trans ?_⟩
      · omega
      · rw [← hk, show n / 1000000 * 1000000 + n % 1000000 = n by omega]

end Shared

/-- An amount is read back from its text exactly when it is not negative or whole. For an accepted
text that means: no sign, or zeros only after the point. Two amounts have one text exactly when both
are negative, and the digits after the point are the same five up to a last zero. -/
theorem usdc_roundTrip_iff (u : ℤ) (s : Str) :
    (usdcToBaseUnits (formatUsdc u) = .ok u ↔ 0 ≤ u ∨ 1000000 ∣ u) ∧
    (∀ v : ℤ, usdcToBaseUnits s = .ok v →
      (usdcToBaseUnits (formatUsdc v) = .ok v ↔
        (trim jsSpace s).head? ≠ some (ofChar '-') ∨ ∀ c ∈ fractionText s, c = ofChar '0')) ∧
    ((∀ v, formatUsdc v = formatUsdc u → v = u) ↔
      ¬(u < 0 ∧ (10000 ≤ u.natAbs % 1000000 ∧ u.natAbs % 1000000 < 100000 ∨
        100000 ≤ u.natAbs % 1000000 ∧ 10 ∣ u.natAbs % 1000000))) := by
  refine ⟨usdcToBaseUnits_formatUsdc_iff u, fun v hs => ?_, ?_⟩
  · obtain ⟨-, w, f, hf, hzero, hv⟩ := usdcToBaseUnits_ok hs
    rw [usdcToBaseUnits_formatUsdc_iff, ← hzero, hv]
    split
    next h =>
      rw [h]
      simp only [ne_eq, not_true_eq_false, false_or]
      omega
    next h => exact iff_of_true (.inl (by omega)) (.inl h)
  · rw [← exists_formatUsdc_eq_iff]
    constructor
    · rintro h ⟨v, hne, hv⟩
      exact hne (h v hv)
    · intro h v hv
      by_contra hne
      exact h ⟨v, hne, hv⟩

/-- Half a dollar of debt is accepted as `-0.5` and written as `0.-5`, which is no amount, and which
is the text of five cents of debt too. -/
theorem half_dollar_misspelt :
    usdcToBaseUnits (lit "-0.5") = .ok (-500000) ∧
    usdcToBaseUnits (formatUsdc (-500000)) ≠ .ok (-500000) ∧
    formatUsdc (-500000) = formatUsdc (-50000) := by
  refine ⟨rfl, fun h => ?_, formatUsdc_mul_ten 0 (r := 50000) (by decide) (by decide)⟩
  have := (usdcToBaseUnits_formatUsdc_iff (-500000)).mp h
  omega

end X402
end Arcane
