import Arcane.Constitution.Bob
import Arcane.Lib.FirstMatch
import Arcane.Lib.Traverse

/-!
# Bob's forecast and the validator

Bob and the validator read a rule list in the same order, and stop at the first rule that a transfer
breaks. `stops` is this reading, with the two things in which they differ: the cap of a rule that
gives none, and how an address is recognised.

* `classifyIntent_eq`, `ruleLoop_eq`: both are such readings.
* `forecast_iff`: when they come to the same verdict.
-/

namespace Arcane
namespace Constitution
namespace Bob

open Text Evm Abi FirstMatch

section Digits

variable {U : Unicode}

theorem readDigits_two {c d : CodePoint} (hc : c.val < 128) (hd : d.val < 128) :
    readDigits 10 U.digit [c, d] = readDigits 10 digitVal [c, d] := by
  refine readDigits_digit U 10 fun x hx => ?_
  rcases List.mem_cons.mp hx with rfl | hx
  · exact hc
  · rw [List.mem_singleton.mp hx]
    exact hd

theorem trim_three {c d e : CodePoint} (hc : 33 ≤ c.val ∧ c.val < 128)
    (hd : 33 ≤ d.val ∧ d.val < 128) (he : 33 ≤ e.val ∧ e.val < 128) :
    trim U.space [c, d, e] = [c, d, e] := by
  refine trim_eq_self fun x hx => ?_
  simp only [List.mem_cons, List.not_mem_nil, or_false] at hx
  rcases hx with rfl | rfl | rfl
  · exact U.space_ascii _ hc.1 hc.2
  · exact U.space_ascii _ hd.1 hd.2
  · exact U.space_ascii _ he.1 he.2

theorem usdcToUnits_of_lt {amount : Str} {x : Decimal} (h : Decimal.ofText U amount = some x)
    (hcoeff : x.coeff * 10 ^ usdcDecimals < 10 ^ Decimal.precision)
    (hexp : x.exp + Decimal.precision ≤ Decimal.maxExponent) :
    usdcToUnits U amount =
      some { x with coeff := x.coeff * 10 ^ usdcDecimals : Decimal }.toIntegral := by
  have hmul := Decimal.mul_of_lt hcoeff hexp
  rw [usdcToUnits, Option.bind_eq_bind, Option.bind_eq_some_iff]
  exact ⟨x, h, Option.bind_eq_some_iff.mpr ⟨_, hmul, rfl⟩⟩

/-- The default of the encoder. -/
theorem usdcToUnits_one (U : Unicode) : usdcToUnits U (lit "1.0") = some 1000000 := by
  have htrim : trim U.space (lit "1.0") = lit "1.0" :=
    trim_three (by decide) (by decide) (by decide)
  have hread : readDigits 10 U.digit (lit "10") = some 10 := readDigits_two (by decide) (by decide)
  have hparse : Decimal.unsigned U false (lit "1.0") = some ⟨false, 10, -1⟩ := by
    unfold Decimal.unsigned
    show (readDigits 10 U.digit (lit "10")).bind _ = _
    rw [hread]
    rfl
  have htext : Decimal.ofText U (lit "1.0") = some ⟨false, 10, -1⟩ := by
    unfold Decimal.ofText
    rw [htrim]
    exact hparse
  rw [usdcToUnits_of_lt htext (by decide) (by decide)]
  rfl

/-- The default of the forecast. -/
theorem usdcToUnits_zero (U : Unicode) : usdcToUnits U (lit "0.0") = some 0 := by
  have htrim : trim U.space (lit "0.0") = lit "0.0" :=
    trim_three (by decide) (by decide) (by decide)
  have hread : readDigits 10 U.digit (lit "00") = some 0 := readDigits_two (by decide) (by decide)
  have hparse : Decimal.unsigned U false (lit "0.0") = some ⟨false, 0, -1⟩ := by
    unfold Decimal.unsigned
    show (readDigits 10 U.digit (lit "00")).bind _ = _
    rw [hread]
    rfl
  have htext : Decimal.ofText U (lit "0.0") = some ⟨false, 0, -1⟩ := by
    unfold Decimal.ofText
    rw [htrim]
    exact hparse
  rw [usdcToUnits_of_lt htext (by decide) (by decide)]
  rfl

end Digits

section Addresses

variable {U : Unicode} {abi : EthAbi} {s digits : Str} {a : Address} {n : ℕ}

def usdc : Address := 0x3600000000000000000000000000000000000000

theorem hexVal_asciiLower (c : CodePoint) : hexVal (asciiLower c) = hexVal c := by
  unfold asciiLower
  split
  next h =>
    simp only [hexVal]
    split_ifs <;> first | (congr 1; omega) | rfl
  next => rfl

theorem readBase_asciiLower (b acc : ℕ) (s : Str) :
    readBase b hexVal acc (s.map asciiLower) = readBase b hexVal acc s := by
  induction s generalizing acc with
  | nil => rfl
  | cons c s ih =>
    rw [List.map_cons, readBase, readBase, hexVal_asciiLower]
    exact congrArg _ (funext fun d => ih _)

theorem readDigits_asciiLower (b : ℕ) (s : Str) :
    readDigits b hexVal (s.map asciiLower) = readDigits b hexVal s := by
  rw [readDigits, readDigits, readBase_asciiLower, List.isEmpty_map]

/-- Hexadecimal digits are ASCII. -/
theorem isAscii_of_readBase {acc : ℕ} (h : readBase 16 hexVal acc s = some n) : isAscii s := by
  induction s generalizing acc with
  | nil => simp [isAscii]
  | cons c s ih =>
    obtain ⟨d, hd, h⟩ := Option.bind_eq_some_iff.mp h
    have hc : c.val < 128 := by
      by_contra hc
      rw [hexVal, if_neg (by omega), if_neg (by omega), if_neg (by omega)] at hd
      exact absurd hd (by simp)
    intro x hx
    rcases List.mem_cons.mp hx with rfl | hx
    · exact hc
    · exact ih h x hx

theorem isAscii_of_readDigits (h : readDigits 16 hexVal s = some n) : isAscii s := by
  rw [readDigits] at h
  split at h
  · exact absurd h (by simp)
  · exact isAscii_of_readBase h

def usdcDigits : Str := lit "3600000000000000000000000000000000000000"

theorem usdcText_eq : usdcText = lit "0x" ++ usdcDigits := rfl

theorem readDigits_usdcDigits : readDigits 16 hexVal usdcDigits = some usdc.val.toNat := by
  decide

theorem isAscii_append {s t : Str} (hs : isAscii s) (ht : isAscii t) : isAscii (s ++ t) :=
  fun c hc => (List.mem_append.mp hc).elim (hs c) (ht c)

theorem isAscii_0x : isAscii (lit "0x") ∧ isAscii (lit "0X") := by
  have hx : ∀ x : CodePoint, x.val < 128 → isAscii [ofChar '0', x] := by
    intro x hx c hc
    rcases List.mem_cons.mp hc with rfl | hc
    · decide
    · rw [List.mem_singleton.mp hc]
      exact hx
  exact ⟨hx _ (by decide), hx _ (by decide)⟩

theorem lower_usdcText : U.lower usdcText = usdcText := by
  rw [usdcText_eq, U.lower_ascii _
    (isAscii_append isAscii_0x.1 (isAscii_of_readDigits readDigits_usdcDigits))]
  decide

/-- The text of an address in lower case, with and without `0x`. -/
theorem lower_address (h : readDigits 16 hexVal digits = some n) :
    U.lower digits = digits.map asciiLower ∧
    U.lower (lit "0x" ++ digits) = lit "0x" ++ digits.map asciiLower ∧
    U.lower (lit "0X" ++ digits) = lit "0x" ++ digits.map asciiLower := by
  have hascii := isAscii_of_readDigits h
  refine ⟨U.lower_ascii _ hascii, ?_, ?_⟩
  · rw [U.lower_ascii _ (isAscii_append isAscii_0x.1 hascii), List.map_append]
    rfl
  · rw [U.lower_ascii _ (isAscii_append isAscii_0x.2 hascii), List.map_append]
    rfl

/-- The text of the USDC address, in whatever case, is encoded as that address. -/
theorem address_of_lower (h : abi.address (.text s) = some a) (hs : U.lower s = usdcText) :
    a = usdc := by
  obtain ⟨digits, hlen, hread, hform⟩ := abi.address_text s a h
  obtain ⟨hplain, h0x, h0X⟩ := lower_address (U := U) hread
  have hdigits : digits.map asciiLower = usdcDigits := by
    rcases hform with rfl | rfl | rfl
    · rw [hplain] at hs
      have := congrArg List.length hs
      rw [List.length_map, hlen] at this
      exact absurd this (by decide)
    · rw [h0x, usdcText_eq] at hs
      exact List.append_cancel_left hs
    · rw [h0X, usdcText_eq] at hs
      exact List.append_cancel_left hs
  have hval := readDigits_asciiLower 16 digits
  rw [hdigits, hread, readDigits_usdcDigits] at hval
  obtain ⟨val⟩ := a
  exact congrArg Address.mk (BitVec.eq_of_toNat_eq (Option.some.inj hval).symm)

end Addresses

section Readings

variable {V : Type} (U : Unicode) (py : Builtins V) (abi : EthAbi)

/-- The cap of a rule; `dflt` is the text of the one that it has without `max_usdc`. -/
def capOf (dflt : Str) (r : RuleDict V) : Option ℤ :=
  usdcToUnits U ((r.maxUsdc.map py.str).getD dflt)

/-- A rule stops a transfer of `amount`; `isUsdc` tells which entries are the USDC address. -/
def stops (dflt : Str) (isUsdc : AddressArg → Bool) (amount : ℤ) (r : RuleDict V) : Bool :=
  if r.kind = lit "MAX_TRADE_SIZE" then (capOf U py dflt r).any fun cap => cap < amount
  else if r.kind = lit "VENUE_BLACKLIST" then (r.venues.getD .nil).items.any isUsdc
  else if r.kind = lit "NO_UNAUDITED_CONTRACTS" then
    !(r.whitelist.getD .nil).items.isEmpty && !(r.whitelist.getD .nil).items.any isUsdc
  else false

/-- The entry is spelt as the USDC address, but for the case. -/
def spelt (a : AddressArg) : Bool := a.lower U = .text usdcText

/-- The entry is encoded as the USDC address. -/
def names (a : AddressArg) : Bool := abi.address a = some usdc

def bobStops : ℤ → RuleDict V → Bool := stops U py (lit "0.0") (spelt U)

def chainStops : ℤ → RuleDict V → Bool := stops U py (lit "1.0") (names abi)

variable {U py} {dflt : Str} {isUsdc : AddressArg → Bool} {amount : ℤ} {r : RuleDict V}

theorem stops_trade (h : r.kind = lit "MAX_TRADE_SIZE") :
    stops U py dflt isUsdc amount r = (capOf U py dflt r).any fun cap => cap < amount := by
  rw [stops, if_pos h]

theorem stops_venue (h : r.kind = lit "VENUE_BLACKLIST") :
    stops U py dflt isUsdc amount r = (r.venues.getD .nil).items.any isUsdc := by
  rw [stops, h, if_neg (by decide), if_pos rfl]

theorem stops_contract (h : r.kind = lit "NO_UNAUDITED_CONTRACTS") :
    stops U py dflt isUsdc amount r =
      (!(r.whitelist.getD .nil).items.isEmpty && !(r.whitelist.getD .nil).items.any isUsdc) := by
  rw [stops, h, if_neg (by decide), if_neg (by decide), if_pos rfl]

theorem stops_other (h₁ : r.kind ≠ lit "MAX_TRADE_SIZE") (h₂ : r.kind ≠ lit "VENUE_BLACKLIST")
    (h₃ : r.kind ≠ lit "NO_UNAUDITED_CONTRACTS") : stops U py dflt isUsdc amount r = false := by
  rw [stops, if_neg h₁, if_neg h₂, if_neg h₃]

end Readings

section Bob

variable {V : Type} {U : Unicode} {py : Builtins V} {abi : EthAbi} {r : RuleDict V}
  {rules : List (RuleDict V)} {amount : ℤ}

theorem encodeUint_eq_some {n : ℤ} {b : Bytes} :
    encodeUint n = some b ↔ (0 ≤ n ∧ n < 2 ^ 256) ∧ word n.toNat = b := by
  rw [encodeUint, Option.ite_none_right_eq_some, Option.some.injEq]

theorem ruleToSolidity_eq_some {t : UInt8 × Bytes × AddressArg} :
    ruleToSolidity U py abi r = some t ↔
      ∃ kind params, kindStrToInt r.kind = some kind ∧
        encodeRuleParams U py abi r.kind r = some params ∧
        (kind, params, r.adapter.getD zeroAdapter) = t := by
  simp only [ruleToSolidity, Option.bind_eq_bind, Option.bind_eq_some_iff, Option.pure_def,
    Option.some.injEq]
  constructor
  · rintro ⟨k, hk, p, hp, h⟩
    exact ⟨k, p, hk, hp, h⟩
  · rintro ⟨k, p, hk, hp, h⟩
    exact ⟨k, hk, p, hp, h⟩

theorem encodeRuleParams_trade :
    encodeRuleParams U py abi (lit "MAX_TRADE_SIZE") r =
      (capOf U py (lit "1.0") r).bind encodeUint := by
  rw [encodeRuleParams, if_neg (by decide), if_pos rfl]
  rfl

/-- The two caps of a rule that is encoded. -/
theorem capOf_of_encoded {params : Bytes}
    (h : encodeRuleParams U py abi (lit "MAX_TRADE_SIZE") r = some params) :
    ∃ cap : ℤ, capOf U py (lit "1.0") r = some cap ∧ (0 ≤ cap ∧ cap < 2 ^ 256) ∧
      word cap.toNat = params ∧
      capOf U py (lit "0.0") r = some (if r.maxUsdc.isNone then 0 else cap) := by
  rw [encodeRuleParams_trade, Option.bind_eq_some_iff] at h
  obtain ⟨cap, hcap, h⟩ := h
  obtain ⟨hrange, hword⟩ := encodeUint_eq_some.mp h
  refine ⟨cap, hcap, hrange, hword, ?_⟩
  cases hmax : r.maxUsdc with
  | none =>
    rw [capOf, hmax]
    exact usdcToUnits_zero U
  | some v =>
    rw [capOf, hmax] at hcap ⊢
    exact hcap

theorem mem_map_lower {l : List AddressArg} :
    .text (U.lower usdcText) ∈ l.map (·.lower U) ↔ l.any (spelt U) = true := by
  simp only [lower_usdcText, List.mem_map, List.any_eq_true, spelt, decide_eq_true_eq]

theorem classifyIntent_cons (h : (ruleToSolidity U py abi r).isSome) :
    classifyIntent U py usdcText 0 transferSelector amount (r :: rules) =
      if bobStops U py amount r then some r.kind
      else classifyIntent U py usdcText 0 transferSelector amount rules := by
  obtain ⟨t, h⟩ := Option.isSome_iff_exists.mp h
  obtain ⟨kind, params, -, hparams, -⟩ := ruleToSolidity_eq_some.mp h
  rw [classifyIntent, bobStops, stops]
  by_cases htrade : r.kind = lit "MAX_TRADE_SIZE"
  · rw [htrade] at hparams
    obtain ⟨cap, -, hrange, -, hcap⟩ := capOf_of_encoded hparams
    generalize hcap' : (if r.maxUsdc.isNone then 0 else cap) = cap' at hcap
    have hnonneg : ¬0 > cap' := by
      rw [← hcap']
      split <;> omega
    rw [if_pos htrade, if_pos htrade, htrade]
    show (capOf U py (lit "0.0") r).bind _ = _
    rw [hcap, Option.bind_some, Option.any_some, if_neg hnonneg]
    simp only [true_and, gt_iff_lt, decide_eq_true_eq]
    rfl
  · rw [if_neg htrade, if_neg htrade]
    by_cases hvenue : r.kind = lit "VENUE_BLACKLIST"
    · rw [if_pos hvenue, if_pos hvenue, hvenue]
      simp only [mem_map_lower]
    · rw [if_neg hvenue, if_neg hvenue]
      by_cases hcontract : r.kind = lit "NO_UNAUDITED_CONTRACTS"
      · rw [if_pos hcontract, if_pos hcontract, hcontract]
        simp only [mem_map_lower, ne_eq, List.map_eq_nil_iff, Bool.and_eq_true, Bool.not_eq_true',
          List.isEmpty_eq_false_iff, Bool.not_eq_true]
      · rw [if_neg hcontract, if_neg hcontract, if_neg Bool.false_ne_true]

/-- The forecast is the kind of the first rule that stops the transfer in Bob's reading. -/
theorem classifyIntent_eq (h : ∀ r ∈ rules, (ruleToSolidity U py abi r).isSome) :
    classifyIntent U py usdcText 0 transferSelector amount rules =
      some (((rules.find? (bobStops U py amount)).map (·.kind)).getD (lit "OK")) := by
  induction rules with
  | nil => rfl
  | cons r rules ih =>
    rw [classifyIntent_cons (h r (by simp)), ih fun x hx => h x (by simp [hx])]
    cases hstop : bobStops U py amount r with
    | false => rw [List.find?_cons_of_neg (by simp [hstop]), if_neg (by simp)]
    | true => rw [List.find?_cons_of_pos hstop, if_pos rfl]; rfl

end Bob

section Chain

variable {V : Type} {U : Unicode} {py : Builtins V} {abi : EthAbi} {adapters : Adapters}
  {r : RuleDict V} {rules : List (RuleDict V)} {rule : Rule} {sol : List Rule} {recipient : Address}
  {n : ℕ} {l : PyList AddressArg} {params : Bytes}

/-- The call of the intent. -/
def transferCall (recipient : Address) (n : ℕ) : Execution :=
  ⟨usdc, 0, transferSelector ++ (addressWord recipient ++ word n)⟩

/-- The validator sees the amount of the transfer. -/
theorem checkTransfer_transferCall {max : ℕ} (hn : n < 2 ^ 256) :
    Validator.checkTransfer (transferCall recipient n).callData max =
      require (n ≤ max) (Validator.reason "MAX_TRADE_SIZE") := by
  have hlen : 68 ≤ (transferCall recipient n).callData.length := by
    simp [transferCall, transferSelector]
  have hsel : Validator.selector (transferCall recipient n).callData = transferSelector :=
    slice_left rfl
  have hamount : Validator.decodeUint256At (transferCall recipient n).callData 36 = n := by
    have hpre : (transferSelector ++ addressWord recipient).length = 36 := by
      simp [transferSelector]
    rw [Validator.decodeUint256At, transferCall, ← List.append_assoc, slice_append hpre.le, hpre,
      Nat.sub_self, slice, List.drop_zero, List.take_of_length_le (length_word n).le]
    exact ofBytes_toBytes (lt_of_lt_of_eq hn (by decide))
  rw [Validator.checkTransfer, if_pos ⟨hlen, hsel⟩, hamount]

theorem decodeUint_word (hn : n < 2 ^ 256) : decodeUint (word n) = some n := by
  have h := wordAt_word (r := []) hn
  rwa [List.append_nil] at h

theorem usdc_mem_iff {items : List AddressArg} {as : List Address}
    (h : List.Forall₂ (fun a b => abi.address a = some b) items as) :
    usdc ∈ as ↔ items.any (names abi) = true := by
  induction h with
  | nil => simp
  | cons hx _ ih =>
    rw [List.mem_cons, ih, List.any_cons, Bool.or_eq_true, names, decide_eq_true_eq, hx,
      Option.some.injEq, eq_comm]

/-- The list is read back, with the USDC address where an entry names it. -/
theorem decodeAddresses_encodeAddresses (h : encodeAddresses abi l = some params) :
    ∃ as, decodeAddresses params = some as ∧ (as = [] ↔ l.items.isEmpty = true) ∧
      (usdc ∈ as ↔ l.items.any (names abi) = true) := by
  obtain ⟨as, has, h⟩ := Option.bind_eq_some_iff.mp h
  obtain rfl := Option.some.inj h
  have hitems := Traverse.forall₂_of_mapM has
  have hlen : as.length < 2 ^ 64 := by
    have := l.length_lt
    rw [hitems.length_eq] at this
    omega
  have hsize : sizeAt (word 32 ++ addresses as) 0 = some 32 := sizeAt_word (by decide)
  have harr := arrayAt_addresses (a := word 32) hlen
  rw [length_word] at harr
  refine ⟨as, by rw [decodeAddresses, hsize, Option.bind_some, harr], ?_, usdc_mem_iff hitems⟩
  rw [List.isEmpty_iff]
  generalize l.items = items at hitems
  cases hitems <;> simp

/-- What the validator says of a rule that has no adapter. -/
def Judged (stop : Bool) (kind : Str) (x : Tx Error Unit) : Prop :=
  (stop = false ∧ x = .ok ()) ∨
    (stop = true ∧ ∃ tag, lit tag = kind ∧ x = .error (.reason (Validator.reason tag)))

theorem judged_require {c : Prop} [Decidable c] {stop : Bool} {tag : String}
    (h : stop = true ↔ ¬c) :
    Judged stop (lit tag) (require c (Validator.reason tag)) := by
  by_cases hc : c
  · left
    rw [require, if_pos hc]
    exact ⟨by simpa [hc] using h, rfl⟩
  · right
    rw [require, if_neg hc]
    exact ⟨h.mpr hc, tag, rfl, rfl⟩

theorem reason_venueBlacklist :
    Validator.reason "VENUE_BLACKLIST" = "ConstitutionViolation:VENUE_BLACKLIST" := by decide

theorem reason_noUnauditedContracts :
    Validator.reason "NO_UNAUDITED_CONTRACTS" = "ConstitutionViolation:NO_UNAUDITED_CONTRACTS" := by
  decide

section Kinds

variable (hn : n < 2 ^ 256) {adapter : Address}

include hn in
theorem enforce_trade (hkind : r.kind = lit "MAX_TRADE_SIZE")
    (hparams : encodeRuleParams U py abi (lit "MAX_TRADE_SIZE") r = some params) :
    Judged (chainStops U py abi n r) (lit "MAX_TRADE_SIZE")
      (Validator.enforce adapters ⟨1, params, 0⟩ (transferCall recipient n)) := by
  obtain ⟨cap, hcap, hrange, rfl, -⟩ := capOf_of_encoded hparams
  have hmax : decodeUint (word cap.toNat) = some cap.toNat := decodeUint_word (by omega)
  have hstop : chainStops U py abi n r = true ↔ ¬n ≤ cap.toNat := by
    rw [chainStops, stops_trade hkind, hcap, Option.any_some, decide_eq_true_eq]
    omega
  have henforce : Validator.enforce adapters ⟨1, word cap.toNat, 0⟩ (transferCall recipient n) =
      require (n ≤ cap.toNat) (Validator.reason "MAX_TRADE_SIZE") := by
    have hvalue : (require ((transferCall recipient n).value ≤ cap.toNat)
        (Validator.reason "MAX_TRADE_SIZE") : Tx Error Unit) = .ok () := if_pos (Nat.zero_le _)
    have hne : ¬(1 : UInt8) = 0 := by decide
    simp only [Validator.enforce, if_neg hne, if_true, Validator.checkMaxTradeSize, hmax, decoded,
      ok_bind, hvalue, checkAdapterSize, checkTransfer_transferCall hn]
    rfl
  rw [henforce]
  exact judged_require hstop

theorem enforce_venue (hkind : r.kind = lit "VENUE_BLACKLIST")
    (hparams : encodeRuleParams U py abi (lit "VENUE_BLACKLIST") r = some params) :
    Judged (chainStops U py abi n r) (lit "VENUE_BLACKLIST")
      (Validator.enforce adapters ⟨2, params, 0⟩ (transferCall recipient n)) := by
  obtain ⟨as, has, -, hmem⟩ := decodeAddresses_encodeAddresses
    (show encodeAddresses abi (r.venues.getD .nil) = some params from hparams)
  have hstop : chainStops U py abi n r = true ↔ ¬usdc ∉ as := by
    rw [chainStops, stops_venue hkind, ← hmem, not_not]
  have henforce : Validator.enforce adapters ⟨2, params, 0⟩ (transferCall recipient n) =
      require (usdc ∉ as) (Validator.reason "VENUE_BLACKLIST") := by
    show Validator.checkVenueBlacklist _ _ = _
    rw [Validator.checkVenueBlacklist, checkVenueBlacklist, has, reason_venueBlacklist]
    rfl
  rw [henforce]
  exact judged_require hstop

theorem enforce_contract (hkind : r.kind = lit "NO_UNAUDITED_CONTRACTS")
    (hparams : encodeRuleParams U py abi (lit "NO_UNAUDITED_CONTRACTS") r = some params) :
    Judged (chainStops U py abi n r) (lit "NO_UNAUDITED_CONTRACTS")
      (Validator.enforce adapters ⟨3, params, 0⟩ (transferCall recipient n)) := by
  obtain ⟨as, has, hempty, hmem⟩ := decodeAddresses_encodeAddresses
    (show encodeAddresses abi (r.whitelist.getD .nil) = some params from hparams)
  have hstop : chainStops U py abi n r = true ↔ ¬(as = [] ∨ usdc ∈ as) := by
    rw [chainStops, stops_contract hkind, hempty, hmem]
    simp
  have henforce : Validator.enforce adapters ⟨3, params, 0⟩ (transferCall recipient n) =
      require (as = [] ∨ usdc ∈ as) (Validator.reason "NO_UNAUDITED_CONTRACTS") := by
    show Validator.checkUnauditedContracts _ _ = _
    rw [Validator.checkUnauditedContracts, checkUnauditedContracts, has,
      reason_noUnauditedContracts]
    rfl
  rw [henforce]
  exact judged_require hstop

end Kinds

/-- A rule that is encoded, without an adapter, which the registry accepts. -/
theorem enforce_judged {t : UInt8 × Bytes × AddressArg} (h : ruleToSolidity U py abi r = some t)
    (hrule : ofTuple abi t = some rule) (hadapter : rule.adapter = 0) (hadapted : rule.Adapted)
    (hn : n < 2 ^ 256) :
    Judged (chainStops U py abi n r) r.kind
      (Validator.enforce adapters rule (transferCall recipient n)) := by
  obtain ⟨kind, params, hkind, hparams, rfl⟩ := ruleToSolidity_eq_some.mp h
  obtain ⟨adapter, -, rfl⟩ := Option.map_eq_some_iff.mp hrule
  obtain rfl : adapter = 0 := hadapter
  have hrequired : ¬(kind = 0 ∨ kind = 4) := fun h => hadapted h rfl
  rw [kindStrToInt] at hkind
  split_ifs at hkind with h₀ h₁ h₂ h₃ h₄ h₅
  all_goals obtain rfl := Option.some.inj hkind
  · exact absurd (.inl rfl) hrequired
  · rw [h₁] at hparams ⊢
    exact enforce_trade hn h₁ hparams
  · rw [h₂] at hparams ⊢
    exact enforce_venue h₂ hparams
  · rw [h₃] at hparams ⊢
    exact enforce_contract h₃ hparams
  · exact absurd (.inr rfl) hrequired
  · left
    exact ⟨stops_other h₁ h₂ h₃, rfl⟩

/-- What the loop says, and of which kind the rule is that it reverts on. -/
def Verdict (kind : Option Str) (x : Tx Error Unit) : Prop :=
  (kind = none ∧ x = .ok ()) ∨
    ∃ tag, kind = some (lit tag) ∧ x = .error (.reason (Validator.reason tag))

/-- The encodings that the registry accepts, rule by rule. -/
def Encodes (U : Unicode) (py : Builtins V) (abi : EthAbi) (r : RuleDict V) (rule : Rule) : Prop :=
  (∃ t, ruleToSolidity U py abi r = some t ∧ ofTuple abi t = some rule) ∧ rule.adapter = 0 ∧
    rule.Adapted

/-- The validator stops at the first rule that it reads so. -/
theorem enforce_rules (h : List.Forall₂ (Encodes U py abi) rules sol) (hn : n < 2 ^ 256) :
    Verdict ((rules.find? (chainStops U py abi n)).map (·.kind))
      (sol.forM fun rule => Validator.enforce adapters rule (transferCall recipient n)) := by
  rw [List.forM_eq_forM]
  induction h with
  | nil => exact .inl ⟨rfl, rfl⟩
  | cons hr _ ih =>
    obtain ⟨⟨t, ht, hrule⟩, hadapter, hadapted⟩ := hr
    rw [List.forM_cons]
    rcases enforce_judged ht hrule hadapter hadapted hn with ⟨hstop, hok⟩ | ⟨hstop, tag, htag, herr⟩
    · rw [List.find?_cons_of_neg (by simp [hstop]), hok]
      exact ih
    · rw [List.find?_cons_of_pos hstop, herr]
      exact .inr ⟨tag, by rw [htag]; rfl, rfl⟩

/-- The validation of a user operation ends in the rule loop. -/
theorem validateUserOp_eq_ruleLoop {registry : Registry.State} {s : Validator.State} {m : Msg}
    {sender : Address} {callData : Bytes} (hhash : s.constitutionOf sender ≠ 0)
    (hsender : m.sender = s.entryPointOf sender ∨ m.sender = sender)
    (hrules : Registry.getConstitution registry (s.constitutionOf sender) = .ok sol) :
    Validator.validateUserOp adapters registry s m sender callData =
      Validator.ruleLoop adapters sol callData := by
  have hrequire : (require (m.sender = s.entryPointOf sender ∨ m.sender = sender)
      "ConstitutionViolation:NOT_OWN_USEROP" : Tx Error Unit) = .ok () := if_pos hsender
  simp only [Validator.validateUserOp, revertIf_neg hhash, hrequire, hrules, external, ok_bind]
  rfl

theorem ruleLoop_eq (h : List.Forall₂ (Encodes U py abi) rules sol) (hn : n < 2 ^ 256) :
    Verdict ((rules.find? (chainStops U py abi n)).map (·.kind))
      (Validator.ruleLoop adapters sol (executeData (transferCall recipient n))) := by
  have hlen : (transferCall recipient n).callData.length < 2 ^ 64 := by
    simp [transferCall, transferSelector]
  have hvalue : (transferCall recipient n).value < 2 ^ 256 := Nat.two_pow_pos 256
  rw [Validator.ruleLoop, decodeCall_executeData hvalue hlen, ok_bind]
  exact enforce_rules h hn

end Chain

section Verdicts

variable {V : Type} {U : Unicode} {py : Builtins V} {abi : EthAbi} {adapters : Adapters}
  {r : RuleDict V} {rules : List (RuleDict V)} {sol : List Rule} {intent : TradeIntent} {size : V}
  {amount : ℤ}

theorem buildTransferIntent_eq_some
    (h : buildTransferIntent U py abi rules size = some intent) :
    ∃ (amount : ℤ) (recipient : Address),
      usdcToUnits U (py.str size) = some amount ∧ (0 ≤ amount ∧ amount < 2 ^ 256) ∧
      classifyIntent U py usdcText 0 transferSelector amount rules = some intent.kind ∧
      intent.executeCalldata = executeData (transferCall recipient amount.toNat) := by
  simp only [buildTransferIntent, buildErc20TransferCalldata, buildExecuteCalldata, encodeAddress,
    Option.bind_eq_bind, Option.bind_eq_some_iff, Option.pure_def, Option.some.injEq,
    Option.map_eq_some_iff, encodeUint_eq_some] at h
  obtain ⟨amount, hamount, _, ⟨_, ⟨recipient, -, rfl⟩, _, ⟨hrange, rfl⟩, rfl⟩, _,
    ⟨_, ⟨target, htarget, rfl⟩, _, ⟨-, rfl⟩, rfl⟩, kind, hkind, rfl⟩ := h
  obtain rfl := address_of_lower (U := U) htarget lower_usdcText
  exact ⟨amount, recipient, hamount, hrange, hkind, rfl⟩

/-- An entry that is encoded and spelt so is the USDC address. -/
theorem names_of_spelt {a : AddressArg} {b : Address} (ha : abi.address a = some b)
    (h : spelt U a = true) : names abi a = true := by
  rw [spelt, decide_eq_true_eq] at h
  cases a with
  | text s =>
    obtain rfl := address_of_lower ha (AddressArg.text.inj h)
    rw [names, decide_eq_true_eq]
    exact ha
  | raw b => exact absurd h (by simp [AddressArg.lower])

theorem any_names_of_any_spelt {l : PyList AddressArg} {params : Bytes}
    (hl : encodeAddresses abi l = some params) (h : l.items.any (spelt U) = true) :
    l.items.any (names abi) = true := by
  obtain ⟨as, has, -⟩ := Option.bind_eq_some_iff.mp hl
  have hitems := Traverse.map_of_mapM has
  obtain ⟨a, ha, hs⟩ := List.any_eq_true.mp h
  have hsome : abi.address a ∈ as.map some := hitems ▸ List.mem_map_of_mem ha
  obtain ⟨b, -, hb⟩ := List.mem_map.mp hsome
  exact List.any_eq_true.mpr ⟨a, ha, names_of_spelt hb.symm hs⟩

/-- The rule stops the transfer in Bob's eyes only: it gives no cap, which is 0 for Bob and 1 USDC
in its encoding, or it allows USDC under a spelling that Bob does not recognise. -/
def Misjudged (U : Unicode) (abi : EthAbi) (amount : ℤ) (r : RuleDict V) : Prop :=
  (r.kind = lit "MAX_TRADE_SIZE" ∧ r.maxUsdc.isNone = true ∧ 0 < amount ∧ amount ≤ 1000000) ∨
    (r.kind = lit "NO_UNAUDITED_CONTRACTS" ∧ (r.whitelist.getD .nil).items.any (names abi) = true ∧
      (r.whitelist.getD .nil).items.any (spelt U) = false)

/-- The rule stops the transfer on the chain only: it bans USDC under such a spelling. -/
def Overlooked (U : Unicode) (abi : EthAbi) (r : RuleDict V) : Prop :=
  r.kind = lit "VENUE_BLACKLIST" ∧ (r.venues.getD .nil).items.any (names abi) = true ∧
    (r.venues.getD .nil).items.any (spelt U) = false

/-- Two readings of a list, of which the first recognises no more than the second. -/
theorem any_false_of_any_false {l : PyList AddressArg} {params : Bytes}
    (hl : encodeAddresses abi l = some params) (h : l.items.any (names abi) = false) :
    l.items.any (spelt U) = false := by
  by_contra hs
  rw [Bool.not_eq_false] at hs
  rw [any_names_of_any_spelt hl hs] at h
  exact absurd h (by simp)

theorem readings_trade (hkind : r.kind = lit "MAX_TRADE_SIZE") {params : Bytes}
    (hparams : encodeRuleParams U py abi (lit "MAX_TRADE_SIZE") r = some params) :
    ((bobStops U py amount r = true ∧ chainStops U py abi amount r = false) ↔
      r.maxUsdc.isNone = true ∧ 0 < amount ∧ amount ≤ 1000000) ∧
    ¬(chainStops U py abi amount r = true ∧ bobStops U py amount r = false) := by
  obtain ⟨cap, hcap, hrange, -, hbob⟩ := capOf_of_encoded hparams
  rw [bobStops, chainStops, stops_trade hkind, stops_trade hkind, hcap, hbob, Option.any_some,
    Option.any_some, decide_eq_true_eq, decide_eq_false_iff_not, decide_eq_true_eq,
    decide_eq_false_iff_not]
  cases hmax : r.maxUsdc with
  | none =>
    rw [capOf, hmax] at hcap
    obtain rfl := Option.some.inj ((usdcToUnits_one U).symm.trans hcap)
    simp only [Option.isNone_none, if_true, true_and]
    omega
  | some v =>
    simp only [Option.isNone_some, Bool.false_eq_true, if_false, false_and, iff_false]
    omega

/-- In which ways a rule that is encoded is read differently. -/
theorem readings_iff (h : (ruleToSolidity U py abi r).isSome) :
    ((bobStops U py amount r = true ∧ chainStops U py abi amount r = false) ↔
      Misjudged U abi amount r) ∧
    ((chainStops U py abi amount r = true ∧ bobStops U py amount r = false) ↔
      Overlooked U abi r) := by
  obtain ⟨t, h⟩ := Option.isSome_iff_exists.mp h
  obtain ⟨kind, params, -, hparams, -⟩ := ruleToSolidity_eq_some.mp h
  rw [Misjudged, Overlooked]
  have hne₁ : lit "MAX_TRADE_SIZE" ≠ lit "VENUE_BLACKLIST" := by decide
  have hne₂ : lit "MAX_TRADE_SIZE" ≠ lit "NO_UNAUDITED_CONTRACTS" := by decide
  have hne₃ : lit "VENUE_BLACKLIST" ≠ lit "NO_UNAUDITED_CONTRACTS" := by decide
  by_cases htrade : r.kind = lit "MAX_TRADE_SIZE"
  · rw [htrade] at hparams
    obtain ⟨hmisjudged, hoverlooked⟩ := @readings_trade V U py abi r amount htrade _ hparams
    rw [hmisjudged]
    simp only [htrade, hne₁, hne₂, true_and, false_and, or_false, iff_false]
    exact hoverlooked
  by_cases hvenue : r.kind = lit "VENUE_BLACKLIST"
  · rw [hvenue] at hparams
    have hnames := any_false_of_any_false (U := U)
      (show encodeAddresses abi (r.venues.getD .nil) = some params from hparams)
    rw [bobStops, chainStops, stops_venue hvenue, stops_venue hvenue]
    simp only [hvenue, hne₁.symm, hne₃, true_and, false_and, or_false, iff_false, and_true]
    rintro ⟨hspelt, hnone⟩
    rw [hnames hnone] at hspelt
    exact absurd hspelt (by simp)
  by_cases hcontract : r.kind = lit "NO_UNAUDITED_CONTRACTS"
  · rw [hcontract] at hparams
    have hnames := any_false_of_any_false (U := U)
      (show encodeAddresses abi (r.whitelist.getD .nil) = some params from hparams)
    rw [bobStops, chainStops, stops_contract hcontract, stops_contract hcontract]
    simp only [hcontract, hne₂.symm, hne₃.symm, true_and, false_and, false_or, iff_false]
    -- A list with an entry is not empty.
    have hempty (h : (r.whitelist.getD .nil).items.any (names abi) = true) :
        (r.whitelist.getD .nil).items.isEmpty = false := by
      obtain ⟨a, ha, -⟩ := List.any_eq_true.mp h
      exact List.isEmpty_eq_false_iff.mpr (List.ne_nil_of_mem ha)
    revert hnames hempty
    cases (r.whitelist.getD .nil).items.isEmpty <;>
      cases (r.whitelist.getD .nil).items.any (names abi) <;>
        cases (r.whitelist.getD .nil).items.any (spelt U) <;> simp
  · rw [bobStops, chainStops, stops_other htrade hvenue hcontract,
      stops_other htrade hvenue hcontract]
    simp [htrade, hvenue, hcontract]

/-- If the first rule at which Bob or the validator stops is one at which only one of them does, the
other one goes on to a rule of the same kind. -/
def Foreseen (U : Unicode) (py : Builtins V) (abi : EthAbi) (rules : List (RuleDict V))
    (amount : ℤ) : Prop :=
  ∀ pre r post, rules = pre ++ r :: post →
    (∀ x ∈ pre, bobStops U py amount x = false ∧ chainStops U py abi amount x = false) →
    (Misjudged U abi amount r →
      (post.find? (chainStops U py abi amount)).map (·.kind) = some r.kind) ∧
    (Overlooked U abi r → (post.find? (bobStops U py amount)).map (·.kind) = some r.kind)

theorem foreseen_iff (h : ∀ r ∈ rules, (ruleToSolidity U py abi r).isSome) :
    Foreseen U py abi rules amount ↔
      Reconciled (bobStops U py amount) (chainStops U py abi amount) (·.kind) rules := by
  unfold Foreseen Reconciled
  refine forall_congr' fun pre => forall_congr' fun r => forall_congr' fun post =>
    forall_congr' fun hrules => forall_congr' fun _ => ?_
  have hr := h r (by rw [hrules]; simp)
  obtain ⟨hmisjudged, hoverlooked⟩ := @readings_iff V U py abi r amount hr
  rw [← hmisjudged, ← hoverlooked, MadeGood, MadeGood, and_imp, and_imp]

/-- What Bob's label says of the rule loop. -/
structure Predicts (kind : Str) (loop : Tx Error Unit) : Prop where
  accepted : kind = lit "OK" ↔ loop = .ok ()
  reverted : loop ≠ .ok () → ∃ tag, lit tag = kind ∧ loop = .error (.reason (Validator.reason tag))

/-- A rule that stops anything has one of three kinds. -/
theorem kind_ne_ok {dflt : Str} {isUsdc : AddressArg → Bool} :
    ((rules.find? (stops U py dflt isUsdc amount)).map (·.kind)) ≠ some (lit "OK") := by
  intro h
  obtain ⟨r, hr, hkind⟩ := Option.map_eq_some_iff.mp h
  have hstops := List.find?_some hr
  rw [stops_other (by rw [hkind]; decide) (by rw [hkind]; decide) (by rw [hkind]; decide)] at hstops
  exact absurd hstops (by simp)

theorem predicts_iff {loop : Tx Error Unit} {forecast verdict : Option Str}
    (hforecast : forecast ≠ some (lit "OK")) (hverdict : verdict ≠ some (lit "OK"))
    (h : Verdict verdict loop) :
    Predicts (forecast.getD (lit "OK")) loop ↔ forecast = verdict := by
  have hok : forecast.getD (lit "OK") = lit "OK" ↔ forecast = none := by
    cases forecast with
    | none => simp
    | some kind => simpa using hforecast
  rcases h with ⟨rfl, rfl⟩ | ⟨tag, rfl, rfl⟩
  · constructor
    · intro hp
      exact hok.mp (hp.accepted.mpr rfl)
    · rintro rfl
      exact ⟨iff_of_true rfl rfl, fun hne => absurd rfl hne⟩
  · constructor
    · intro hp
      obtain ⟨tag', htag, heq⟩ := hp.reverted (by simp)
      have htags : tag = tag' :=
        (String.append_right_inj _).mp (Revert.reason.inj (Except.error.inj heq))
      have hsome : forecast ≠ none := fun h => absurd (hp.accepted.mp (hok.mpr h)) (by simp)
      obtain ⟨kind, rfl⟩ := Option.ne_none_iff_exists'.mp hsome
      rw [htags, htag]
      rfl
    · rintro rfl
      exact ⟨iff_of_false (fun hk => hverdict (congrArg some hk)) (by simp),
        fun _ => ⟨tag, rfl, rfl⟩⟩

theorem encodes_of_encodedRules (h : encodedRules U py abi rules = some sol)
    (hadapter : ∀ rule ∈ sol, rule.adapter = 0) (hadapted : ∀ rule ∈ sol, rule.Adapted) :
    List.Forall₂ (Encodes U py abi) rules sol := by
  obtain ⟨tuples, htuples, hsol⟩ := Option.bind_eq_some_iff.mp h
  have hfirst := Traverse.forall₂_of_mapM htuples
  have hsecond := Traverse.forall₂_of_mapM hsol
  clear h htuples hsol
  induction hfirst generalizing sol with
  | nil =>
    cases hsecond
    exact .nil
  | cons ht _ ih =>
    cases hsecond with
    | cons hrule hrest =>
      exact .cons ⟨⟨_, ht, hrule⟩, hadapter _ (by simp), hadapted _ (by simp)⟩
        (ih (fun x hx => hadapter x (by simp [hx])) (fun x hx => hadapted x (by simp [hx])) hrest)

theorem isSome_of_encodedRules (h : encodedRules U py abi rules = some sol) :
    ∀ r ∈ rules, (ruleToSolidity U py abi r).isSome := by
  intro r hr
  obtain ⟨tuples, htuples, -⟩ := Option.bind_eq_some_iff.mp h
  have hmem := List.mem_map_of_mem (f := ruleToSolidity U py abi) hr
  rw [Traverse.map_of_mapM htuples] at hmem
  obtain ⟨t, -, ht⟩ := List.mem_map.mp hmem
  rw [← ht]
  rfl

theorem adapted_of_defineConstitution {keccak256 : Bytes → Bytes32}
    {registry registry' : Registry.State}
    (h : Registry.defineConstitution keccak256 registry sol = .ok registry') :
    ∀ rule ∈ sol, rule.Adapted := by
  simp only [Registry.defineConstitution, bind_ok, forM_ok, checkRule_ok] at h
  obtain ⟨_, -, _, hrules, -⟩ := h
  exact hrules

/-- Bob's label says whether the rule loop accepts the transfer, and at which kind of rule it stops,
exactly when the rules are `Foreseen`. -/
theorem forecast_iff (U : Unicode) (py : Builtins V) (abi : EthAbi) (adapters : Adapters)
    (keccak256 : Bytes → Bytes32) (registry registry' : Registry.State) (rules : List (RuleDict V))
    (sol : List Rule) (size : V) (amount : ℤ) (intent : TradeIntent)
    (hsol : encodedRules U py abi rules = some sol) (hadapter : ∀ rule ∈ sol, rule.adapter = 0)
    (hregistry : Registry.defineConstitution keccak256 registry sol = .ok registry')
    (hamount : usdcToUnits U (py.str size) = some amount)
    (hintent : buildTransferIntent U py abi rules size = some intent) :
    Predicts intent.kind (Validator.ruleLoop adapters sol intent.executeCalldata) ↔
      Foreseen U py abi rules amount := by
  obtain ⟨amount', recipient, hamount', hrange, hkind, hdata⟩ := buildTransferIntent_eq_some hintent
  obtain rfl := Option.some.inj (hamount'.symm.trans hamount)
  have hencodes := encodes_of_encodedRules hsol hadapter (adapted_of_defineConstitution hregistry)
  have hrules := isSome_of_encodedRules hsol
  have hlt : amount'.toNat < 2 ^ 256 := by omega
  have hloop : Verdict _ (Validator.ruleLoop adapters sol
    (executeData (transferCall recipient amount'.toNat))) := ruleLoop_eq hencodes hlt
  rw [Int.toNat_of_nonneg hrange.1] at hloop
  rw [classifyIntent_eq hrules, Option.some.injEq] at hkind
  rw [foreseen_iff hrules, ← find?_map_eq_iff, ← hkind, hdata]
  exact predicts_iff kind_ne_ok kind_ne_ok hloop

end Verdicts

namespace Demo

/-- The digits of an address, after `0x` or not. -/
def hexDigits (s : Str) : Str :=
  if s.take 2 = lit "0x" ∨ s.take 2 = lit "0X" then s.drop 2 else s

theorem hexDigits_form (s : Str) :
    s = hexDigits s ∨ s = lit "0x" ++ hexDigits s ∨ s = lit "0X" ++ hexDigits s := by
  rw [hexDigits]
  split
  next h =>
    rcases h with h | h
    · exact .inr (.inl (by rw [← h, List.take_append_drop]))
    · exact .inr (.inr (by rw [← h, List.take_append_drop]))
  next => exact .inl rfl

def hexAddress (s : Str) : Option Address :=
  if (hexDigits s).length = 40 then
    (readDigits 16 hexVal (hexDigits s)).bind fun n =>
      if n < 2 ^ 160 then some ⟨BitVec.ofNat 160 n⟩ else none
  else none

theorem hexAddress_eq_some {s : Str} {a : Address} (h : hexAddress s = some a) :
    (hexDigits s).length = 40 ∧ readDigits 16 hexVal (hexDigits s) = some a.val.toNat := by
  rw [hexAddress, Option.ite_none_right_eq_some, Option.bind_eq_some_iff] at h
  obtain ⟨hlen, n, hn, h⟩ := h
  rw [Option.ite_none_right_eq_some] at h
  obtain ⟨hlt, h⟩ := h
  obtain rfl := Option.some.inj h
  refine ⟨hlen, ?_⟩
  rw [hn, BitVec.toNat_ofNat, Nat.mod_eq_of_lt hlt]

/-- Addresses without their checksums, and no bytes. -/
def abi : EthAbi where
  address
    | .text s => hexAddress s
    | .raw _ => none
  address_text s _ h :=
    ⟨hexDigits s, (hexAddress_eq_some h).1, (hexAddress_eq_some h).2, hexDigits_form s⟩

/-- Numbers as their texts. -/
def py : Builtins Str := ⟨id, signed⟩
where
  signed (s : Str) : Option ℤ := (readNat s).map Int.ofNat

def rule (kind : Str) (venues : List AddressArg) (h : venues.length < 2 ^ 63) : RuleDict Str where
  kind := kind
  maxLeverageBps := none
  maxUsdc := none
  venues := some ⟨venues, h⟩
  whitelist := none
  maxChildBudgetUnits := none
  maxChildBudgetUsdc := none
  paramsBytes := none
  adapter := none

def recipient : Address := 0x000000000000000000000000000000000000bEEF

/-- The intent to send one USDC. -/
def intent (kind : Str) : TradeIntent where
  kind := kind
  target := usdcText
  value := 0
  calldata := (transferCall recipient 1000000).callData
  executeCalldata := executeData (transferCall recipient 1000000)

theorem address_usdc : abi.address (.text usdcText) = some usdc := by decide

theorem address_recipient : abi.address (.text recipientText) = some recipient := by decide

theorem address_zeroAdapter : abi.address zeroAdapter = some 0 := by decide

theorem buildTransferIntent_eq {rules : List (RuleDict Str)} {kind : Str}
    (h : classifyIntent .ascii py usdcText 0 transferSelector 1000000 rules = some kind) :
    buildTransferIntent .ascii py abi rules (lit "1.0") = some (intent kind) := by
  have hsize : usdcToUnits .ascii (py.str (lit "1.0")) = some 1000000 := usdcToUnits_one .ascii
  have hamount : encodeUint 1000000 = some (word 1000000) := rfl
  have hvalue : encodeUint 0 = some (word 0) := rfl
  simp only [buildTransferIntent, hsize, buildErc20TransferCalldata, encodeAddress,
    address_recipient, hamount, buildExecuteCalldata, address_usdc, hvalue, h, Option.bind_eq_bind,
    Option.bind_some, Option.map_some, Option.pure_def]
  rfl

/-- A rule without a cap. -/
def capless : RuleDict Str := rule (lit "MAX_TRADE_SIZE") [] (by decide)

/-- A rule that bans USDC. -/
def banned : RuleDict Str := rule (lit "VENUE_BLACKLIST") [.text usdcText] (by decide)

theorem encodedRules_capless :
    encodedRules .ascii py abi [capless] = some [⟨1, word 1000000, 0⟩] := by
  have hparams : encodeRuleParams .ascii py abi (lit "MAX_TRADE_SIZE") capless =
      some (word 1000000) := by
    rw [encodeRuleParams_trade]
    show (usdcToUnits .ascii (lit "1.0")).bind encodeUint = _
    rw [usdcToUnits_one]
    rfl
  have htuple : ruleToSolidity .ascii py abi capless = some (1, word 1000000, zeroAdapter) :=
    ruleToSolidity_eq_some.mpr ⟨1, _, rfl, hparams, rfl⟩
  have hrule : ofTuple abi (1, word 1000000, zeroAdapter) = some ⟨1, word 1000000, 0⟩ := by
    rw [ofTuple, address_zeroAdapter]
    rfl
  simp [encodedRules, rulesToSolidity, htuple, hrule]

theorem encodedRules_banned :
    encodedRules .ascii py abi [banned] = some [⟨2, word 32 ++ addresses [usdc], 0⟩] := by
  have hparams : encodeRuleParams .ascii py abi (lit "VENUE_BLACKLIST") banned =
      some (word 32 ++ addresses [usdc]) := by
    show encodeAddresses abi ⟨[.text usdcText], _⟩ = _
    simp [encodeAddresses, address_usdc]
  have htuple : ruleToSolidity .ascii py abi banned =
      some (2, word 32 ++ addresses [usdc], zeroAdapter) :=
    ruleToSolidity_eq_some.mpr ⟨2, _, rfl, hparams, rfl⟩
  have hrule : ofTuple abi (2, word 32 ++ addresses [usdc], zeroAdapter) =
      some ⟨2, word 32 ++ addresses [usdc], 0⟩ := by
    rw [ofTuple, address_zeroAdapter]
    rfl
  simp [encodedRules, rulesToSolidity, htuple, hrule]

/-- Bob expects one USDC to break a rule without a cap; the validator lets it pass. -/
theorem capless_passes :
    encodedRules .ascii py abi [capless] = some [⟨1, word 1000000, 0⟩] ∧
    (∃ registry, Registry.defineConstitution Registry.keccak .initial [⟨1, word 1000000, 0⟩] =
      .ok registry) ∧
    buildTransferIntent .ascii py abi [capless] (lit "1.0") =
      some (intent (lit "MAX_TRADE_SIZE")) ∧
    ∀ adapters, Validator.ruleLoop adapters [⟨1, word 1000000, 0⟩]
      (intent (lit "MAX_TRADE_SIZE")).executeCalldata = .ok () := by
  have hbob : bobStops .ascii py 1000000 capless = true := by
    rw [bobStops, stops_trade rfl]
    show (usdcToUnits .ascii (lit "0.0")).any _ = true
    rw [usdcToUnits_zero]
    rfl
  have hchain : chainStops .ascii py abi 1000000 capless = false := by
    rw [chainStops, stops_trade rfl]
    show (usdcToUnits .ascii (lit "1.0")).any _ = false
    rw [usdcToUnits_one]
    rfl
  refine ⟨encodedRules_capless, ⟨_, rfl⟩, buildTransferIntent_eq ?_, fun adapters => ?_⟩
  · rw [classifyIntent_eq (isSome_of_encodedRules encodedRules_capless),
      List.find?_cons_of_pos hbob]
    rfl
  · have hadapted : ∀ r ∈ [(⟨1, word 1000000, 0⟩ : Rule)], r.Adapted := by
      simp [Rule.Adapted]
    have hloop : Verdict (([capless].find? (chainStops .ascii py abi 1000000)).map (·.kind))
        (Validator.ruleLoop adapters _ (executeData (transferCall recipient 1000000))) :=
      ruleLoop_eq (encodes_of_encodedRules encodedRules_capless (by simp) hadapted) (by decide)
    rw [List.find?_cons_of_neg (by simp [hchain])] at hloop
    rcases hloop with ⟨-, hok⟩ | ⟨tag, htag, -⟩
    · exact hok
    · exact absurd htag (by simp)

theorem banned_spelt : bobStops .ascii py 1000000 banned = true := by
  rw [bobStops, stops_venue rfl]
  show [AddressArg.text usdcText].any (spelt .ascii) = true
  simp [spelt, AddressArg.lower, lower_usdcText]

/-- Both stop a transfer of USDC where it is banned. -/
theorem banned_foreseen :
    Predicts (lit "VENUE_BLACKLIST") (Validator.ruleLoop (fun _ _ => .invalid)
      [⟨2, word 32 ++ addresses [usdc], 0⟩] (intent (lit "VENUE_BLACKLIST")).executeCalldata) := by
  refine (forecast_iff .ascii py abi _ Registry.keccak .initial _ [banned] _ (lit "1.0") 1000000
    (intent (lit "VENUE_BLACKLIST")) encodedRules_banned (by simp) rfl
    (usdcToUnits_one .ascii) (buildTransferIntent_eq ?_)).mpr ?_
  · rw [classifyIntent_eq (isSome_of_encodedRules encodedRules_banned),
      List.find?_cons_of_pos banned_spelt]
    rfl
  · intro pre r post hrules _
    have hspelt : r.kind = lit "VENUE_BLACKLIST" ∧
        (r.venues.getD .nil).items.any (spelt .ascii) = true := by
      have hr : r ∈ [banned] := by rw [hrules]; simp
      rw [List.mem_singleton.mp hr]
      exact ⟨rfl, (stops_venue rfl).symm.trans banned_spelt⟩
    constructor
    · rintro (⟨hkind, -⟩ | ⟨hkind, -⟩)
      · exact absurd (hspelt.1.symm.trans hkind) (by decide)
      · exact absurd (hspelt.1.symm.trans hkind) (by decide)
    · rintro ⟨-, -, hnot⟩
      exact absurd (hspelt.2.symm.trans hnot) (by simp)

end Demo

end Bob
end Constitution
end Arcane
