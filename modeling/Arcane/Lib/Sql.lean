import Arcane.Lib.Dict
import Arcane.Lib.Utf8
import Mathlib.Data.Finset.Card

/-!
# Tables of a database

A table as the set of its rows, with a primary key, and the statements on it.

* `Integer`, `Varchar`: what a column of whole numbers and one of text can hold.
* `insertOrIgnore`, `deleteWhere`, `any`, `count`.
* `Represents`: a dictionary holds the rows; each statement then does to the dictionary what its
  own operations do.
-/

namespace Sql

open Text

/-- A number of 64 bits. -/
abbrev Integer := {n : ℤ // -2 ^ 63 ≤ n ∧ n < 2 ^ 63}

/-- Text that can be encoded. -/
abbrev Varchar := {s : Str // ∀ c ∈ s, IsScalar c}

def bindInteger (n : ℤ) : Option Integer :=
  if h : -2 ^ 63 ≤ n ∧ n < 2 ^ 63 then some ⟨n, h⟩ else none

def bindVarchar (s : Str) : Option Varchar :=
  if h : ∀ c ∈ s, IsScalar c then some ⟨s, h⟩ else none

theorem bindInteger_eq_some {n : ℤ} {x : Integer} : bindInteger n = some x ↔ x.val = n := by
  unfold bindInteger
  split
  · rw [Option.some.injEq, Subtype.ext_iff, eq_comm]
  · next h => exact iff_of_false (Option.some_ne_none _).symm fun heq => h (heq ▸ x.property)

theorem bindVarchar_eq_some {s : Str} {x : Varchar} : bindVarchar s = some x ↔ x.val = s := by
  unfold bindVarchar
  split
  · rw [Option.some.injEq, Subtype.ext_iff, eq_comm]
  · next h => exact iff_of_false (Option.some_ne_none _).symm fun heq => h (heq ▸ x.property)

/-- Rows with a primary key. -/
structure Table {R K : Type} (key : R → K) where
  rows : Finset R
  primary : ∀ r ∈ rows, ∀ r' ∈ rows, key r = key r' → r = r'

namespace Table

variable {R K : Type} {key : R → K}

instance : EmptyCollection (Table key) := ⟨⟨∅, fun r hr => absurd hr (Finset.notMem_empty r)⟩⟩

/-- `SELECT COUNT(*)`. -/
def count (t : Table key) : ℕ := t.rows.card

/-- `SELECT 1 WHERE p LIMIT 1`: whether there is a row. -/
def any (t : Table key) (p : R → Prop) [DecidablePred p] : Bool := decide (∃ r ∈ t.rows, p r)

/-- `DELETE WHERE p`, with the number of rows that go. -/
def deleteWhere (t : Table key) (p : R → Prop) [DecidablePred p] : Table key × ℕ :=
  ({ rows := t.rows.filter fun r => ¬ p r
     primary := fun r hr r' hr' =>
      t.primary r (Finset.mem_filter.mp hr).1 r' (Finset.mem_filter.mp hr').1 },
    (t.rows.filter p).card)

variable [DecidableEq R] [DecidableEq K]

/-- `INSERT OR IGNORE`: a row whose key is there is left out. -/
def insertOrIgnore (t : Table key) (r : R) : Table key :=
  if h : ∃ r' ∈ t.rows, key r' = key r then t
  else
    { rows := insert r t.rows
      primary := by
        intro a ha b hb heq
        rcases Finset.mem_insert.mp ha with ha | ha <;> rcases Finset.mem_insert.mp hb with hb | hb
        · rw [ha, hb]
        · exact absurd ⟨b, hb, by rw [← heq, ha]⟩ h
        · exact absurd ⟨a, ha, by rw [heq, hb]⟩ h
        · exact t.primary a ha b hb heq }

end Table

/-! ## Dictionaries of rows -/

section Represents

variable {R K L V : Type} {key : R → K} [DecidableEq L] {pair : R → L × V} {t : Table key}
  {d : Dict L V} {r : R}

/-- The items of the dictionary are the rows. -/
def Represents (pair : R → L × V) (t : Table key) (d : Dict L V) : Prop :=
  ∀ m, m ∈ d.items ↔ ∃ r ∈ t.rows, pair r = m

/-- Rows are items, by their keys. -/
structure Keyed (key : R → K) (pair : R → L × V) : Prop where
  inj : Function.Injective pair
  key_eq : ∀ r r', (pair r).1 = (pair r').1 ↔ key r = key r'

omit [DecidableEq L] in
theorem represents_empty : Represents pair (∅ : Table key) (∅ : Dict L V) := by
  intro m
  constructor
  · intro h
    cases h
  · rintro ⟨r, hr, -⟩
    exact absurd hr (Finset.notMem_empty r)

/-- A key is there when a row has it. -/
theorem isSome_of_represents (h : Represents pair t d) {l : L} {k : K}
    (hl : ∀ r, (pair r).1 = l ↔ key r = k) : (d.get? l).isSome ↔ ∃ r ∈ t.rows, key r = k := by
  rw [Option.isSome_iff_exists]
  simp only [Dict.mem_items, h _]
  constructor
  · rintro ⟨v, r, hr, heq⟩
    exact ⟨r, hr, (hl r).mp (by rw [heq])⟩
  · rintro ⟨r, hr, heq⟩
    exact ⟨(pair r).2, r, hr, Prod.ext ((hl r).mpr heq) rfl⟩

theorem represents_insertOrIgnore [DecidableEq R] [DecidableEq K] (hpair : Keyed key pair)
    (h : Represents pair t d) (r : R) :
    Represents pair (t.insertOrIgnore r) (d.setDefault (pair r).1 (pair r).2) := by
  have hsome := isSome_of_represents h fun r' => hpair.key_eq r' r
  unfold Table.insertOrIgnore Dict.setDefault
  by_cases hkey : ∃ r' ∈ t.rows, key r' = key r
  · rw [dif_pos hkey, if_pos (hsome.mpr hkey)]
    exact h
  · rw [dif_neg hkey, if_neg (mt hsome.mp hkey)]
    intro m
    rw [Dict.mem_items_set, h m]
    simp only [Finset.mem_insert, exists_eq_or_imp]
    constructor
    · rintro (heq | ⟨hrow, -⟩)
      · exact .inl heq.symm
      · exact .inr hrow
    · rintro (rfl | ⟨r', hr', rfl⟩)
      · exact .inl rfl
      · exact .inr ⟨⟨r', hr', rfl⟩, fun heq => hkey ⟨r', hr', (hpair.key_eq r' r).mp heq⟩⟩

omit [DecidableEq L] in
theorem represents_deleteWhere (h : Represents pair t d) {p : R → Prop} [DecidablePred p]
    {q : V → Bool} (hpq : ∀ r, q (pair r).2 = true ↔ ¬ p r) :
    Represents pair (t.deleteWhere p).1 (d.filter q) := by
  intro m
  rw [Dict.items_filter, List.mem_filter, h m]
  simp only [Table.deleteWhere, Finset.mem_filter]
  constructor
  · rintro ⟨⟨r, hr, rfl⟩, hq⟩
    exact ⟨r, ⟨hr, (hpq r).mp hq⟩, rfl⟩
  · rintro ⟨r, ⟨hr, hp⟩, rfl⟩
    exact ⟨⟨r, hr, rfl⟩, (hpq r).mpr hp⟩

/-- As many rows as items. -/
theorem count_of_represents [DecidableEq V] (hpair : Keyed key pair) (h : Represents pair t d) :
    t.count = d.items.length := by
  have hnodup : d.items.Nodup := List.Nodup.of_map _ d.nodup
  have himage : t.rows.image pair = d.items.toFinset := by
    ext m
    rw [Finset.mem_image, List.mem_toFinset, h m]
  rw [Table.count, ← Finset.card_image_of_injective _ hpair.inj, himage,
    List.toFinset_card_of_nodup hnodup]

/-- Those that go are those that are no longer there. -/
theorem deleted_of_represents [DecidableEq V] (hpair : Keyed key pair) (h : Represents pair t d)
    {p : R → Prop} [DecidablePred p] {q : V → Bool} (hpq : ∀ r, q (pair r).2 = true ↔ ¬ p r) :
    (t.deleteWhere p).2 = (d.filter fun v => !q v).items.length := by
  have hgone : ∀ r, (!q (pair r).2) = true ↔ ¬ ¬ p r := fun r => by
    rw [Bool.not_eq_true', Bool.eq_false_iff, ne_eq, hpq]
  have hcount := count_of_represents hpair
    (represents_deleteWhere h (p := fun r => ¬ p r) (q := fun v => !q v) hgone)
  rw [← hcount]
  simp only [Table.deleteWhere, Table.count, not_not]

end Represents
end Sql
