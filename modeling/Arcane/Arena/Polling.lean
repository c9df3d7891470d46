import Arcane.Arena.Injections
import Mathlib.Data.Nat.Find

/-!
# The blocks that polling covers

A duel is polled from block 0 on. `heads i` is the height of the chain at its poll `i`, counted from
0.

* `cursor heads i`: the block from which poll `i` goes on.
* `Scanned heads i b`: poll `i` reads the events of block `b`.
* `scanned_unique`: a block is read at most once.
* `exists_scanned_iff`: the blocks that are read are those from the first positive height on, up to
  the height at a later poll.
-/

namespace Arcane
namespace Arena

open Evm

/-- `from_block` before poll `i`. -/
def cursor (heads : ℕ → ℕ) : ℕ → ℕ
  | 0 => 0
  | i + 1 =>
    if cursor heads i = 0 then heads i
    else if heads i < cursor heads i then cursor heads i
    else heads i + 1

/-- Poll `i` reads block `b`. -/
def Scanned (heads : ℕ → ℕ) (i b : ℕ) : Prop :=
  cursor heads i ≠ 0 ∧ cursor heads i ≤ b ∧ b ≤ heads i

instance (heads : ℕ → ℕ) (i b : ℕ) : Decidable (Scanned heads i b) :=
  inferInstanceAs (Decidable (_ ∧ _ ∧ _))

/-- The block is not below the first positive height, and not above the height at some later one of
`n` polls. -/
def Covered (heads : ℕ → ℕ) (n b : ℕ) : Prop :=
  ∃ first last, first < last ∧ last < n ∧ (∀ k < first, heads k = 0) ∧ 0 < heads first ∧
    heads first ≤ b ∧ b ≤ heads last

section Cursor

variable {heads : ℕ → ℕ} {i j b n first : ℕ}

theorem cursor_succ_of_pos (h : cursor heads i ≠ 0) :
    cursor heads (i + 1) = if heads i < cursor heads i then cursor heads i else heads i + 1 := by
  rw [cursor, if_neg h]

theorem cursor_mono (hi : cursor heads i ≠ 0) (h : i ≤ j) :
    cursor heads j ≠ 0 ∧ cursor heads i ≤ cursor heads j := by
  induction j, h using Nat.le_induction with
  | base => exact ⟨hi, le_refl _⟩
  | succ j _ ih =>
    obtain ⟨hne, hle⟩ := ih
    rw [cursor_succ_of_pos hne]
    split_ifs <;> omega

/-- What is read is below every later cursor. -/
theorem lt_cursor (h : Scanned heads i b) (hij : i < j) : b < cursor heads j := by
  obtain ⟨hne, hle, hb⟩ := h
  have hnext : cursor heads (i + 1) = heads i + 1 := by
    rw [cursor_succ_of_pos hne, if_neg (by omega)]
  have hmono := cursor_mono (by omega : cursor heads (i + 1) ≠ 0) hij
  omega

/-- A block is read at most once. -/
theorem scanned_unique (hi : Scanned heads i b) (hj : Scanned heads j b) : i = j := by
  obtain hlt | heq | hgt := lt_trichotomy i j
  · have hbelow := lt_cursor hi hlt
    exact absurd hj.2.1 (by omega)
  · exact heq
  · have hbelow := lt_cursor hj hgt
    exact absurd hi.2.1 (by omega)

/-- The first positive height starts the cursor. -/
theorem cursor_first (hzero : ∀ k < first, heads k = 0) :
    cursor heads (first + 1) = heads first := by
  have hstart : ∀ k ≤ first, cursor heads k = 0 := by
    intro k
    induction k with
    | zero => exact fun _ => rfl
    | succ k ih =>
      intro hk
      rw [cursor, if_pos (ih (by omega)), hzero k hk]
  rw [cursor, if_pos (hstart first (le_refl _))]

theorem exists_first (h : cursor heads i ≠ 0) :
    ∃ first < i, (∀ k < first, heads k = 0) ∧ 0 < heads first := by
  by_contra hnone
  have hzero : ∀ k ≤ i, cursor heads k = 0 ∧ ∀ m < k, heads m = 0 := by
    intro k
    induction k with
    | zero => exact fun _ => ⟨rfl, nofun⟩
    | succ k ih =>
      intro hk
      obtain ⟨hcursor, hbefore⟩ := ih (by omega)
      have hhead : heads k = 0 := by
        by_contra hne
        exact hnone ⟨k, hk, hbefore, Nat.pos_of_ne_zero hne⟩
      refine ⟨by rw [cursor, if_pos hcursor, hhead], fun m hm => ?_⟩
      obtain hm | rfl := Nat.lt_succ_iff_lt_or_eq.mp hm
      · exact hbefore m hm
      · exact hhead
  exact h (hzero i (le_refl _)).1

/-- Before a block is reached, the cursor has not passed it. -/
theorem cursor_le (hzero : ∀ k < first, heads k = 0) (hpos : 0 < heads first)
    (hb : heads first ≤ b) (hj : first < j) (hbelow : ∀ k, first < k → k < j → heads k < b) :
    cursor heads j ≠ 0 ∧ cursor heads j ≤ b := by
  induction j, hj using Nat.le_induction with
  | base =>
    rw [cursor_first hzero]
    exact ⟨hpos.ne', hb⟩
  | succ j hj ih =>
    obtain ⟨hne, hle⟩ := ih fun k hk hkj => hbelow k hk (by omega)
    have hhead := hbelow j hj (by omega)
    rw [cursor_succ_of_pos hne]
    split_ifs <;> omega

/-- The blocks that some of the first `n` polls reads. -/
theorem exists_scanned_iff : (∃ i < n, Scanned heads i b) ↔ Covered heads n b := by
  constructor
  · rintro ⟨i, hi, hne, hle, hb⟩
    obtain ⟨first, hfirst, hzero, hpos⟩ := exists_first hne
    have hstart := cursor_first hzero
    have hmono := cursor_mono (by omega : cursor heads (first + 1) ≠ 0) hfirst
    exact ⟨first, i, hfirst, hi, hzero, hpos, by omega, hb⟩
  · rintro ⟨first, last, hlt, hlast, hzero, hpos, hge, hle⟩
    -- the first poll that reaches the block reads it
    have hex : ∃ j, first < j ∧ b ≤ heads j := ⟨last, hlt, hle⟩
    obtain ⟨hfind, hreach⟩ := Nat.find_spec hex
    have hmin : Nat.find hex ≤ last := Nat.find_min' hex ⟨hlt, hle⟩
    obtain ⟨hne, hcursor⟩ := cursor_le hzero hpos hge hfind fun k hk hkj =>
      not_le.mp fun hbk => Nat.find_min hex hkj ⟨hk, hbk⟩
    exact ⟨Nat.find hex, by omega, hne, hcursor, hreach⟩

/-- The number of polls that read the block. -/
theorem countP_scanned : (List.range n).countP (fun i => Scanned heads i b) = 1 ↔
    Covered heads n b := by
  rw [← exists_scanned_iff]
  constructor
  · intro h
    have hpos : 0 < (List.range n).countP fun i => Scanned heads i b := by rw [h]; exact one_pos
    obtain ⟨i, hi, hscan⟩ := List.countP_pos_iff.mp hpos
    exact ⟨i, List.mem_range.mp hi, of_decide_eq_true hscan⟩
  · rintro ⟨i, hi, hscan⟩
    have hsame : (List.range n).countP (fun k => Scanned heads k b) = (List.range n).count i :=
      List.countP_congr fun k _ => by
        rw [decide_eq_true_eq, beq_iff_eq]
        exact ⟨fun hk => scanned_unique hk hscan, fun heq => heq ▸ hscan⟩
    rw [hsame, List.count_eq_one_of_mem List.nodup_range (List.mem_range.mpr hi)]

end Cursor

end Arena
end Arcane
