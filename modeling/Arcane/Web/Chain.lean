import Arcane.Lib.Abi
import Arcane.Lib.Hex
import Arcane.Lib.Keccak
import Arcane.Web.LogScan

/-!
# What the web app reads of a chain

* `unreliable`: a node that does not answer some of the windows. `scanEvents_unreliable`: a scan
  gets the logs of the others, once and in their order.
* `eventsIn`, `getEvents`, `seen`: the events of a run in the blocks of a chain, what a node answers
  of them, and what a scan sees.
* `Checksum`: the texts of addresses, which `text_injective` tells apart. `Checksum.keccak`: those
  of viem.
-/

namespace Arcane
namespace Web

open Windows Text Evm

/-! ## Scans that miss windows -/

section Scan

variable {Log : Type} (fails : Window → Bool)

/-- A node that holds `chain` and keeps to its cap, and that fails on some of the windows. -/
def unreliable (chain : List Log) (blockNumber : Log → ℤ) (w : Window) : Option (List Log) :=
  if fails w then none else node chain blockNumber w

/-- The block is in a window that the node answered. -/
def Answered (ranges : List Window) (b : ℤ) : Prop := ∃ w ∈ ranges, fails w = false ∧ w.Holds b

instance (ranges : List Window) (b : ℤ) : Decidable (Answered fails ranges b) :=
  inferInstanceAs (Decidable (∃ w ∈ ranges, fails w = false ∧ w.Holds b))

variable {fails} {chain : List Log} {blockNumber : Log → ℤ} {lo head maxRange : ℤ} {fuel : ℕ}
  {ranges : List Window}

theorem scanEvents_unreliable (h₀ : 0 ≤ maxRange) (hmax : maxRange < rpcCap)
    (hchain : chain.Pairwise fun d e => blockNumber d ≤ blockNumber e)
    (h : rangesLoop maxRange head fuel lo [] = some ranges) :
    scanEvents (unreliable fails chain blockNumber) ranges =
      chain.filter fun e => Answered fails ranges (blockNumber e) := by
  obtain ⟨ht, hw⟩ := tiling_of_rangesLoop h₀ h
  have hanswer : ∀ w ∈ ranges, (unreliable fails chain blockNumber w).getD [] =
      if fails w then [] else chain.filter fun e => w.Holds (blockNumber e) := by
    intro w hm
    have hcap : w.2 - w.1 + 1 ≤ rpcCap := by
      have := hw w hm
      omega
    rw [unreliable, node, if_pos hcap]
    cases fails w <;> rfl
  have hpairwise : (ranges.filter fun w => !fails w).Pairwise fun v w => v.2 < w.1 :=
    ht.pairwise.sublist List.filter_sublist
  calc scanEvents (unreliable fails chain blockNumber) ranges
      = ranges.flatMap fun w => if fails w then [] else
          chain.filter fun e => w.Holds (blockNumber e) := List.flatMap_congr hanswer
    _ = (ranges.filter fun w => !fails w).flatMap fun w =>
          chain.filter fun e => w.Holds (blockNumber e) := by
        clear hanswer hpairwise ht hw h
        induction ranges with
        | nil => rfl
        | cons w ranges ih =>
          rw [List.flatMap_cons, ih]
          cases hf : fails w <;> simp [hf]
    _ = chain.filter fun e => Answered fails ranges (blockNumber e) := by
        rw [flatMap_filter_of_pairwise hpairwise hchain]
        refine List.filter_congr fun e _ => ?_
        rw [Bool.eq_iff_iff, decide_eq_true_eq, decide_eq_true_eq]
        simp only [Answered, List.mem_filter, Bool.not_eq_true', and_assoc]

/-- Of a node that never fails all blocks from `lo` to `head` are answered. -/
theorem answered_iff (h₀ : 0 ≤ maxRange) (hfails : ∀ w ∈ ranges, fails w = false)
    (h : rangesLoop maxRange head fuel lo [] = some ranges) {b : ℤ} :
    Answered fails ranges b ↔ lo ≤ b ∧ b ≤ head := by
  rw [← (tiling_of_rangesLoop h₀ h).1.mem_iff]
  constructor
  · rintro ⟨w, hw, -, hb⟩
    exact ⟨w, hw, hb⟩
  · rintro ⟨w, hw, hb⟩
    exact ⟨w, hw, hfails w hw, hb⟩

end Scan

/-! ## The events of a run -/

section Events

variable {Step Log Raw : Type} (emit : Step → Option Log) (raw : Log → Raw)
  (fails : Window → Bool)

/-- The events of the steps, with their blocks. -/
def eventsIn (blocks : List (ℤ × Step)) : List (ℤ × Log) :=
  blocks.filterMap fun b => (emit b.2).map (b.1, ·)

/-- The node's answer to the query for the events in a window, as the app gets them. -/
def getEvents (blocks : List (ℤ × Step)) (w : Window) : Option (List Raw) :=
  (unreliable fails (eventsIn emit blocks) (·.1) w).map (List.map fun e => raw e.2)

/-- The events that a scan sees. -/
def seen (ranges : List Window) (blocks : List (ℤ × Step)) : List Log :=
  ((eventsIn emit blocks).filter fun e => Answered fails ranges e.1).map (·.2)

variable {emit raw fails} {blocks : List (ℤ × Step)} {ranges : List Window}
  {maxRange head lo : ℤ} {fuel : ℕ}

theorem map_eventsIn (emit : Step → Option Log) (blocks : List (ℤ × Step)) :
    (eventsIn emit blocks).map (·.2) = (blocks.map (·.2)).filterMap emit := by
  rw [eventsIn, List.map_filterMap, List.filterMap_map]
  refine List.filterMap_congr fun b _ => ?_
  rw [Function.comp_apply]
  cases emit b.2 <;> rfl

theorem block_of_mem_eventsIn {e : ℤ × Log} (h : e ∈ eventsIn emit blocks) :
    ∃ b ∈ blocks, b.1 = e.1 := by
  obtain ⟨b, hb, hmap⟩ := List.mem_filterMap.mp h
  obtain ⟨x, -, rfl⟩ := Option.map_eq_some_iff.mp hmap
  exact ⟨b, hb, rfl⟩

theorem sorted_eventsIn (h : blocks.Pairwise fun b c => b.1 ≤ c.1) :
    (eventsIn emit blocks).Pairwise fun d e => d.1 ≤ e.1 := by
  refine h.filterMap _ ?_
  intro b c hbc d hd e he
  obtain ⟨x, -, rfl⟩ := Option.map_eq_some_iff.mp hd
  obtain ⟨y, -, rfl⟩ := Option.map_eq_some_iff.mp he
  exact hbc

/-- A scan gets the events of the windows that were answered. -/
theorem scanEvents_getEvents (h₀ : 0 ≤ maxRange) (hmax : maxRange < rpcCap)
    (hsorted : blocks.Pairwise fun b c => b.1 ≤ c.1)
    (h : rangesLoop maxRange head fuel lo [] = some ranges) :
    scanEvents (getEvents emit raw fails blocks) ranges =
      (seen emit fails ranges blocks).map raw := by
  have hmap : scanEvents (getEvents emit raw fails blocks) ranges =
      (scanEvents (unreliable fails (eventsIn emit blocks) (·.1)) ranges).map
        fun e => raw e.2 := by
    rw [scanEvents, scanEvents, List.map_flatMap]
    refine List.flatMap_congr fun w _ => ?_
    rw [getEvents]
    cases unreliable fails (eventsIn emit blocks) (·.1) w <;> rfl
  rw [hmap, scanEvents_unreliable h₀ hmax (sorted_eventsIn hsorted) h, seen, List.map_map]
  rfl

/-- All events are seen when no window fails and all blocks are in the windows. -/
theorem seen_eq (h₀ : 0 ≤ maxRange) (h : rangesLoop maxRange head fuel lo [] = some ranges)
    (hfails : ∀ w ∈ ranges, fails w = false) (hin : ∀ b ∈ blocks, lo ≤ b.1 ∧ b.1 ≤ head) :
    seen emit fails ranges blocks = (blocks.map (·.2)).filterMap emit := by
  have hall : ∀ e ∈ eventsIn emit blocks, Answered fails ranges e.1 := by
    intro e he
    obtain ⟨b, hb, hblock⟩ := block_of_mem_eventsIn he
    exact (answered_iff h₀ hfails h).mpr (hblock ▸ hin b hb)
  rw [seen, List.filter_eq_self.mpr fun e he => decide_eq_true (hall e he), map_eventsIn]

end Events

/-! ## Addresses -/

/-- `0x` and the lower-case digits of an address. -/
def addressKey (a : Address) : Str := Python.hex0x (Abi.packedAddress a)

theorem addressKey_injective : Function.Injective addressKey := by
  intro a b h
  have hbytes : Abi.packedAddress a = Abi.packedAddress b := Python.hex0x_injective h
  have hval : a.val.toNat = b.val.toNat := by
    rw [← Abi.ofBytes_packedAddress, hbytes, Abi.ofBytes_packedAddress]
  obtain ⟨a⟩ := a
  obtain ⟨b⟩ := b
  exact congrArg Address.mk (BitVec.eq_of_toNat_eq hval)

theorem isAscii_addressKey (a : Address) : isAscii (addressKey a) := by
  intro c hc
  obtain hc | hc := List.mem_append.mp hc
  · exact (Json.printable_lit (by decide) c hc).2
  · exact Python.isAscii_hex _ c hc

theorem asciiLower_hex (b : Bytes) : ∀ c ∈ Python.hex b, asciiLower c = c := by
  have hdigit (d : ℕ) : asciiLower (Json.hexDigit d) = Json.hexDigit d := by
    have hval := Python.hexDigit_val d
    exact dif_neg (by omega)
  intro c hc
  obtain ⟨x, -, hc⟩ := List.mem_flatMap.mp hc
  simp only [List.mem_cons, List.not_mem_nil, or_false] at hc
  obtain rfl | rfl := hc <;> exact hdigit _

theorem lower_addressKey (U : Unicode) (a : Address) : U.lower (addressKey a) = addressKey a := by
  rw [U.lower_ascii _ (isAscii_addressKey a), addressKey, Python.hex0x, List.map_append,
    List.map_congr_left (asciiLower_hex _), List.map_id']
  rfl

/-- How viem writes an address. Its letters are upper or lower case by a checksum. -/
structure Checksum (U : Unicode) where
  text : Address → Str
  lower_text : ∀ a, U.lower (text a) = addressKey a

namespace Checksum

/-- `a`..`z` become `A`..`Z`. -/
def upperDigit (c : CodePoint) : CodePoint :=
  if h : 97 ≤ c.val ∧ c.val ≤ 122 then ⟨c.val - 32, by omega⟩ else c

theorem asciiLower_upperDigit {c : CodePoint} (h : asciiLower c = c) :
    asciiLower (upperDigit c) = c := by
  unfold upperDigit
  split
  · next hc =>
    rw [asciiLower, dif_pos (by simp only; omega)]
    ext
    simp only
    omega
  · exact h

theorem upperDigit_lt {c : CodePoint} (h : c.val < 128) : (upperDigit c).val < 128 := by
  unfold upperDigit
  split
  · simp only
    omega
  · exact h

/-- The digits of an address, in upper case where the digit of the hash is 8 or more. -/
def casedDigits (digits : Str) (hash : List ℕ) : Str :=
  (digits.zip hash).map fun (c, h) => if 8 ≤ h then upperDigit c else c

theorem asciiLower_casedDigits {digits : Str} {hash : List ℕ} (h : ∀ c ∈ digits, asciiLower c = c)
    (hlength : digits.length ≤ hash.length) :
    (casedDigits digits hash).map asciiLower = digits := by
  induction digits generalizing hash with
  | nil => rfl
  | cons c digits ih =>
    cases hash with
    | nil => cases hlength
    | cons d hash =>
      have hc := h c List.mem_cons_self
      have hlower : asciiLower (if 8 ≤ d then upperDigit c else c) = c := by
        split
        · exact asciiLower_upperDigit hc
        · exact hc
      have hrest := ih (fun x hx => h x (List.mem_cons_of_mem _ hx))
        (Nat.le_of_succ_le_succ hlength)
      exact congrArg₂ List.cons hlower hrest

theorem isAscii_casedDigits {digits : Str} {hash : List ℕ} (h : isAscii digits) :
    isAscii (casedDigits digits hash) := by
  intro c hc
  obtain ⟨⟨d, x⟩, hd, rfl⟩ := List.mem_map.mp hc
  have hlt := h d (List.of_mem_zip hd).1
  simp only
  split
  · exact upperDigit_lt hlt
  · exact hlt

/-- The text of an address with the hash of its digits. -/
def checksumAddress (a : Address) : Str :=
  let digits := Python.hex (Abi.packedAddress a)
  let hash := keccak256 ((utf8 digits).getD [])
  lit "0x" ++ casedDigits digits (hash.flatMap fun x => [x.toNat / 16, x.toNat % 16])

/-- The texts of viem. -/
def keccak (U : Unicode) : Checksum U where
  text := checksumAddress
  lower_text a := by
    have hkey : isAscii (lit "0x" ++ Python.hex (Abi.packedAddress a)) := isAscii_addressKey a
    have hascii : isAscii (checksumAddress a) := by
      intro c hc
      obtain hc | hc := List.mem_append.mp hc
      · exact hkey c (List.mem_append_left _ hc)
      · exact isAscii_casedDigits (Python.isAscii_hex _) c hc
    rw [U.lower_ascii _ hascii, checksumAddress, List.map_append, asciiLower_casedDigits]
    · rfl
    · exact asciiLower_hex _
    · rw [Python.length_hex, Abi.length_packedAddress]
      simp

example : checksumAddress 0xA1 = lit "0x00000000000000000000000000000000000000A1" := by
  decide +kernel

variable {U : Unicode} (S : Checksum U)

theorem text_ne_nil (a : Address) : S.text a ≠ [] := by
  intro h
  have hlower := S.lower_text a
  rw [h, U.lower_ascii [] (by simp [isAscii])] at hlower
  cases hlower

/-- The address that viem sends for its text. -/
def addressOf (lower : Str → Str) (text : Str) : Address :=
  ⟨BitVec.ofNat 160 (Abi.ofBytes ((Python.fromHex (Python.remove0x (lower text))).getD []))⟩

theorem addressOf_text (a : Address) : addressOf U.lower (S.text a) = a := by
  rw [addressOf, S.lower_text, addressKey, Python.remove0x_hex0x, Python.fromHex_hex,
    Option.getD_some, Abi.ofBytes_packedAddress]
  simp

theorem text_injective : Function.Injective S.text := by
  intro a b h
  have hlower := congrArg U.lower h
  rw [S.lower_text, S.lower_text] at hlower
  exact addressKey_injective hlower

end Checksum

end Web
end Arcane
