import Arcane.DarkPool.Agreement
import Arcane.Lib.Sql

/-!
# The two nonce stores

`SqliteNonceStore` as statements on a table with typed columns, and `InMemoryNonceStore` as a
dictionary, under sequences of calls.

* `Same`: the dictionary holds the rows of the table. `same_call`: a call whose arguments the table
  can take keeps that, and answers the same from both; `call_raises`: on another one only SQLite
  raises.
* `interchangeable_iff`: the stores are interchangeable exactly on sequences of such calls.
* `has_eq`, `add_eq`, `purgeExpired_eq`: `NonceStore`, which the server runs on, is either of the
  two.
-/

namespace Arcane
namespace DarkPool

open Text Python

/-- The columns of the primary key. -/
structure KeyColumns where
  chainId : Sql.Integer
  verifyingContract : Sql.Varchar
  signer : Sql.Varchar
  nonce : Sql.Varchar
deriving DecidableEq

structure NonceRow where
  key : KeyColumns
  expiresAt : Sql.Integer
deriving DecidableEq

/-- `_resolve_domain` and `_normalise`; the former raises `ValueError` when half of the domain is
missing. -/
def resolvedKey (U : Unicode) (signer nonce : Str) (chainId : Option ℤ)
    (verifyingContract : Option Str) : Option NonceKey :=
  match chainId, verifyingContract with
  | some chainId, some verifyingContract => some (nonceKey U signer nonce chainId verifyingContract)
  | _, _ => none

def bindKey (k : NonceKey) : Option KeyColumns := do
  return ⟨← Sql.bindInteger k.chainId, ← Sql.bindVarchar k.verifyingContract,
    ← Sql.bindVarchar k.signer, ← Sql.bindVarchar k.nonce⟩

abbrev SqliteNonceStore := Sql.Table NonceRow.key

namespace SqliteNonceStore

variable (store : SqliteNonceStore)

def has (k : NonceKey) : Option Bool := do
  let key ← bindKey k
  return store.any fun r => r.key = key

def add (k : NonceKey) (expiresAt : ℤ) : Option SqliteNonceStore := do
  let key ← bindKey k
  let expiresAt ← Sql.bindInteger expiresAt
  return store.insertOrIgnore ⟨key, expiresAt⟩

/-- `purge_expired`, with the `rowcount`. -/
def purgeExpired (now : ℤ) : Option (SqliteNonceStore × ℕ) := do
  let now ← Sql.bindInteger now
  return store.deleteWhere fun r => r.expiresAt.val ≤ now.val

end SqliteNonceStore

abbrev InMemoryNonceStore := Dict NonceKey ℤ

namespace InMemoryNonceStore

variable (store : InMemoryNonceStore)

def has (k : NonceKey) : Bool := (store.get? k).isSome

def add (k : NonceKey) (expiresAt : ℤ) : InMemoryNonceStore := store.setDefault k expiresAt

/-- The keys of the rows that have expired. -/
def stale (now : ℤ) : List NonceKey := (store.items.filter fun m => m.2 ≤ now).map (·.1)

/-- `purge_expired`, with the number of rows that it deletes one after the other. -/
def purgeExpired (now : ℤ) : InMemoryNonceStore × ℕ :=
  ((stale store now).foldl Dict.erase store, (stale store now).length)

end InMemoryNonceStore

/-! ## Calls -/

inductive StoreCall
  | has (signer nonce : Str) (chainId : Option ℤ) (verifyingContract : Option Str)
  | add (signer nonce : Str) (expiresAt : ℤ) (chainId : Option ℤ) (verifyingContract : Option Str)
  | purgeExpired (now : ℤ)
  | len

inductive Answer
  | found (b : Bool)
  | added
  | purged (rows : ℕ)
  | size (rows : ℕ)
deriving DecidableEq

section Calls

variable (U : Unicode)

/-- The store after a call, and its answer unless it raised. -/
def SqliteNonceStore.call (store : SqliteNonceStore) : StoreCall → SqliteNonceStore × Option Answer
  | .has signer nonce chainId verifyingContract =>
    (store, ((resolvedKey U signer nonce chainId verifyingContract).bind
      (SqliteNonceStore.has store)).map .found)
  | .add signer nonce expiresAt chainId verifyingContract =>
    match (resolvedKey U signer nonce chainId verifyingContract).bind
        (SqliteNonceStore.add store · expiresAt) with
    | some store => (store, some .added)
    | none => (store, none)
  | .purgeExpired now =>
    match SqliteNonceStore.purgeExpired store now with
    | some (store, rows) => (store, some (.purged rows))
    | none => (store, none)
  | .len => (store, some (.size store.count))

def InMemoryNonceStore.call (store : InMemoryNonceStore) :
    StoreCall → InMemoryNonceStore × Option Answer
  | .has signer nonce chainId verifyingContract =>
    (store, (resolvedKey U signer nonce chainId verifyingContract).map fun k =>
      .found (InMemoryNonceStore.has store k))
  | .add signer nonce expiresAt chainId verifyingContract =>
    match resolvedKey U signer nonce chainId verifyingContract with
    | some k => (InMemoryNonceStore.add store k expiresAt, some .added)
    | none => (store, none)
  | .purgeExpired now =>
    let (store, rows) := InMemoryNonceStore.purgeExpired store now
    (store, some (.purged rows))
  | .len => (store, some (.size store.items.length))

/-- The store after the calls, and their answers. -/
def calls {S : Type} (call : S → StoreCall → S × Option Answer) :
    S → List StoreCall → S × List (Option Answer)
  | s, [] => (s, [])
  | s, c :: cs =>
    let (s, answer) := call s c
    let (s, answers) := calls call s cs
    (s, answer :: answers)

/-- The arguments fit the columns. -/
def StoreCall.Binds : StoreCall → Prop
  | .has signer nonce chainId verifyingContract =>
    ∀ k, resolvedKey U signer nonce chainId verifyingContract = some k → k.bindable
  | .add signer nonce expiresAt chainId verifyingContract =>
    ∀ k, resolvedKey U signer nonce chainId verifyingContract = some k →
      k.bindable ∧ fits expiresAt
  | .purgeExpired now => fits now
  | .len => True

end Calls

/-- What a row holds. -/
def KeyColumns.nonceKey (key : KeyColumns) : NonceKey :=
  ⟨key.chainId, key.verifyingContract, key.signer, key.nonce⟩

def NonceRow.item (r : NonceRow) : NonceKey × ℤ := (r.key.nonceKey, r.expiresAt)

/-- The dictionary holds the rows of the table. -/
def Same (table : SqliteNonceStore) (dict : InMemoryNonceStore) : Prop :=
  Sql.Represents NonceRow.item table dict

/-- The same answers, exceptions and nonces, from empty stores on. -/
structure Interchangeable (U : Unicode) (cs : List StoreCall) : Prop where
  answers : (calls (SqliteNonceStore.call U) ∅ cs).2 = (calls (InMemoryNonceStore.call U) ∅ cs).2
  nonces : ∀ p, p <+: cs →
    Same (calls (SqliteNonceStore.call U) ∅ p).1 (calls (InMemoryNonceStore.call U) ∅ p).1

section Binding

theorem bindInteger_isSome {n : ℤ} : (Sql.bindInteger n).isSome ↔ fits n := by
  rw [Option.isSome_iff_exists, fits, Bool.and_eq_true, decide_eq_true_iff, decide_eq_true_iff]
  simp only [Sql.bindInteger_eq_some]
  exact ⟨fun ⟨x, hx⟩ => hx ▸ x.property, fun h => ⟨⟨n, h⟩, rfl⟩⟩

theorem bindVarchar_isSome {s : Str} : (Sql.bindVarchar s).isSome ↔ (utf8 s).isSome := by
  rw [utf8_isSome_iff, Option.isSome_iff_exists]
  simp only [Sql.bindVarchar_eq_some]
  exact ⟨fun ⟨x, hx⟩ => hx ▸ x.property, fun h => ⟨⟨s, h⟩, rfl⟩⟩

theorem bindKey_eq_some {k : NonceKey} {key : KeyColumns} :
    bindKey k = some key ↔ key.nonceKey = k := by
  simp only [bindKey, Option.bind_eq_bind, Option.bind_eq_some_iff, Sql.bindInteger_eq_some,
    Sql.bindVarchar_eq_some, Option.pure_def, Option.some.injEq]
  constructor
  · rintro ⟨c, hc, v, hv, s, hs, n, hn, rfl⟩
    rw [KeyColumns.nonceKey, hc, hv, hs, hn]
  · rintro rfl
    exact ⟨key.chainId, rfl, key.verifyingContract, rfl, key.signer, rfl, key.nonce, rfl, rfl⟩

theorem bindKey_isSome {k : NonceKey} : (bindKey k).isSome ↔ k.bindable := by
  simp only [NonceKey.bindable, Bool.and_eq_true, ← bindInteger_isSome, ← bindVarchar_isSome]
  cases hc : Sql.bindInteger k.chainId <;> cases hv : Sql.bindVarchar k.verifyingContract <;>
    cases hs : Sql.bindVarchar k.signer <;> cases hn : Sql.bindVarchar k.nonce <;>
    simp [bindKey, hc, hv, hs, hn]

theorem nonceKey_inj {key key' : KeyColumns} (h : key.nonceKey = key'.nonceKey) : key = key' := by
  have hkey : bindKey key.nonceKey = some key' := bindKey_eq_some.mpr h.symm
  exact Option.some.inj ((bindKey_eq_some.mpr rfl).symm.trans hkey)

theorem keyed_item : Sql.Keyed NonceRow.key NonceRow.item where
  inj r r' h := by
    obtain ⟨hkey, hexpires⟩ := Prod.mk.inj h
    cases r
    cases r'
    rw [NonceRow.mk.injEq]
    exact ⟨nonceKey_inj hkey, Subtype.ext hexpires⟩
  key_eq _ _ := ⟨nonceKey_inj, congrArg KeyColumns.nonceKey⟩

end Binding

/-! ## One call -/

section Call

variable {U : Unicode} {table : SqliteNonceStore} {dict : InMemoryNonceStore} {k : NonceKey}
  {key : KeyColumns} {n : ℤ} {c : StoreCall}

theorem has_isSome (table : SqliteNonceStore) (k : NonceKey) :
    (SqliteNonceStore.has table k).isSome ↔ k.bindable := by
  rw [← bindKey_isSome]
  cases hk : bindKey k <;> simp [SqliteNonceStore.has, hk]

theorem add_isSome (table : SqliteNonceStore) (k : NonceKey) (n : ℤ) :
    (SqliteNonceStore.add table k n).isSome ↔ k.bindable ∧ fits n := by
  rw [← bindKey_isSome, ← bindInteger_isSome]
  cases hk : bindKey k <;> cases hn : Sql.bindInteger n <;> simp [SqliteNonceStore.add, hk, hn]

theorem has_of_bindKey (h : Same table dict) (hk : bindKey k = some key) :
    SqliteNonceStore.has table k = some (InMemoryNonceStore.has dict k) := by
  obtain rfl := bindKey_eq_some.mp hk
  have hrow : (dict.get? key.nonceKey).isSome ↔ ∃ r ∈ table.rows, r.key = key :=
    Sql.isSome_of_represents h fun r => ⟨nonceKey_inj, congrArg KeyColumns.nonceKey⟩
  rw [SqliteNonceStore.has, hk, InMemoryNonceStore.has]
  simp only [Option.bind_eq_bind, Option.bind_some, Option.pure_def, Sql.Table.any, ← hrow,
    Bool.decide_coe]

theorem add_of_bindKey (h : Same table dict) (hk : bindKey k = some key) {e : Sql.Integer}
    (he : Sql.bindInteger n = some e) : ∃ table', SqliteNonceStore.add table k n = some table' ∧
      Same table' (InMemoryNonceStore.add dict k n) := by
  obtain rfl := bindKey_eq_some.mp hk
  obtain rfl := Sql.bindInteger_eq_some.mp he
  have hinsert := Sql.represents_insertOrIgnore keyed_item h ⟨key, e⟩
  refine ⟨_, ?_, hinsert⟩
  rw [SqliteNonceStore.add, hk, he]
  rfl

/-- The rows that the loop deletes. -/
theorem purgeExpired_memory (now : ℤ) : InMemoryNonceStore.purgeExpired dict now =
    (dict.filter fun expiresAt => !(expiresAt ≤ now),
      (dict.filter fun expiresAt => expiresAt ≤ now).items.length) := by
  have hstale : ∀ m ∈ dict.items, (m.1 ∉ InMemoryNonceStore.stale dict now) ↔ ¬ m.2 ≤ now := by
    intro m hm
    rw [not_iff_not, InMemoryNonceStore.stale, List.mem_map]
    constructor
    · rintro ⟨m', hm', heq⟩
      obtain ⟨hitem, hle⟩ := List.mem_filter.mp hm'
      have hitem' : (m.1, m'.2) ∈ dict.items := heq ▸ hitem
      rw [Dict.value_unique hm hitem']
      exact of_decide_eq_true hle
    · intro hle
      exact ⟨m, List.mem_filter.mpr ⟨hm, decide_eq_true hle⟩, rfl⟩
  refine Prod.ext (Dict.ext ?_) ?_
  · rw [InMemoryNonceStore.purgeExpired, Dict.items_foldl_erase, Dict.items_filter]
    refine List.filter_congr fun m hm => ?_
    rw [← decide_not]
    exact decide_eq_decide.mpr (hstale m hm)
  · simp [InMemoryNonceStore.purgeExpired, InMemoryNonceStore.stale]

theorem purgeExpired_of_bind (h : Same table dict) {now : Sql.Integer}
    (hn : Sql.bindInteger n = some now) :
    ∃ table', SqliteNonceStore.purgeExpired table n =
        some (table', (InMemoryNonceStore.purgeExpired dict n).2) ∧
      Same table' (InMemoryNonceStore.purgeExpired dict n).1 := by
  obtain rfl := Sql.bindInteger_eq_some.mp hn
  have hkept : ∀ r : NonceRow,
      (!decide (r.item.2 ≤ now.val)) = true ↔ ¬ r.expiresAt.val ≤ now.val := by
    intro r
    rw [Bool.not_eq_true', decide_eq_false_iff_not]
    rfl
  have hrows := Sql.represents_deleteWhere h (q := fun e => !decide (e ≤ now.val)) hkept
  have hcount := Sql.deleted_of_represents keyed_item h (q := fun e => !decide (e ≤ now.val)) hkept
  simp only [Bool.not_not] at hcount
  rw [purgeExpired_memory, ← hcount]
  refine ⟨_, ?_, hrows⟩
  rw [SqliteNonceStore.purgeExpired, hn]
  rfl

/-- A call whose arguments fit. -/
theorem same_call (h : Same table dict) (hc : c.Binds U) :
    Same (SqliteNonceStore.call U table c).1 (InMemoryNonceStore.call U dict c).1 ∧
      (SqliteNonceStore.call U table c).2 = (InMemoryNonceStore.call U dict c).2 := by
  cases c with
  | has signer nonce chainId verifyingContract =>
    refine ⟨h, ?_⟩
    cases hk : resolvedKey U signer nonce chainId verifyingContract with
    | none => simp only [SqliteNonceStore.call, InMemoryNonceStore.call, hk, Option.bind_none,
        Option.map_none]
    | some k =>
      obtain ⟨key, hkey⟩ := Option.isSome_iff_exists.mp (bindKey_isSome.mpr (hc k hk))
      simp only [SqliteNonceStore.call, InMemoryNonceStore.call, hk, Option.bind_some,
        has_of_bindKey h hkey, Option.map_some]
  | add signer nonce expiresAt chainId verifyingContract =>
    cases hk : resolvedKey U signer nonce chainId verifyingContract with
    | none =>
      simp only [SqliteNonceStore.call, InMemoryNonceStore.call, hk, Option.bind_none]
      exact ⟨h, trivial⟩
    | some k =>
      obtain ⟨hbindable, hfits⟩ := hc k hk
      obtain ⟨key, hkey⟩ := Option.isSome_iff_exists.mp (bindKey_isSome.mpr hbindable)
      obtain ⟨e, he⟩ := Option.isSome_iff_exists.mp (bindInteger_isSome.mpr hfits)
      obtain ⟨table', hadd, hsame⟩ := add_of_bindKey h hkey he
      simp only [SqliteNonceStore.call, InMemoryNonceStore.call, hk, Option.bind_some, hadd]
      exact ⟨hsame, trivial⟩
  | purgeExpired now =>
    obtain ⟨n, hn⟩ := Option.isSome_iff_exists.mp (bindInteger_isSome.mpr hc)
    obtain ⟨table', hpurge, hsame⟩ := purgeExpired_of_bind h hn
    simp only [SqliteNonceStore.call, InMemoryNonceStore.call, hpurge]
    exact ⟨hsame, trivial⟩
  | len =>
    refine ⟨h, ?_⟩
    rw [SqliteNonceStore.call, InMemoryNonceStore.call, Sql.count_of_represents keyed_item h]

/-- A call whose arguments do not fit raises, of the two, in SQLite. -/
theorem call_raises (table : SqliteNonceStore) (dict : InMemoryNonceStore) (hc : ¬ c.Binds U) :
    (SqliteNonceStore.call U table c).2 = none ∧ (InMemoryNonceStore.call U dict c).2 ≠ none := by
  cases c with
  | has signer nonce chainId verifyingContract =>
    simp only [StoreCall.Binds, not_forall] at hc
    obtain ⟨k, hk, hbindable⟩ := hc
    have hnone : SqliteNonceStore.has table k = none := by
      rw [← Option.not_isSome_iff_eq_none, has_isSome]
      exact hbindable
    simp only [SqliteNonceStore.call, InMemoryNonceStore.call, hk, Option.bind_some, hnone,
      Option.map_none, Option.map_some]
    exact ⟨trivial, Option.some_ne_none _⟩
  | add signer nonce expiresAt chainId verifyingContract =>
    simp only [StoreCall.Binds, not_forall] at hc
    obtain ⟨k, hk, hfit⟩ := hc
    have hnone : SqliteNonceStore.add table k expiresAt = none := by
      rw [← Option.not_isSome_iff_eq_none, add_isSome]
      exact hfit
    simp only [SqliteNonceStore.call, InMemoryNonceStore.call, hk, Option.bind_some, hnone]
    exact ⟨trivial, Option.some_ne_none _⟩
  | purgeExpired now =>
    have hnone : Sql.bindInteger now = none := by
      rw [← Option.not_isSome_iff_eq_none, bindInteger_isSome]
      exact hc
    simp only [SqliteNonceStore.call, SqliteNonceStore.purgeExpired, hnone, Option.bind_eq_bind,
      Option.bind_none]
    exact ⟨trivial, Option.some_ne_none _⟩
  | len => exact absurd trivial hc

/-! ## Sequences of calls -/

theorem calls_same {cs : List StoreCall} (h : Same table dict) (hcs : ∀ c ∈ cs, c.Binds U) :
    Same (calls (SqliteNonceStore.call U) table cs).1
      (calls (InMemoryNonceStore.call U) dict cs).1 ∧
      (calls (SqliteNonceStore.call U) table cs).2 =
        (calls (InMemoryNonceStore.call U) dict cs).2 := by
  induction cs generalizing table dict with
  | nil => exact ⟨h, rfl⟩
  | cons c cs ih =>
    obtain ⟨hc, hcs⟩ := List.forall_mem_cons.mp hcs
    obtain ⟨hsame, hanswer⟩ := same_call h hc
    obtain ⟨hrest, hanswers⟩ := ih hsame hcs
    exact ⟨hrest, congrArg₂ List.cons hanswer hanswers⟩

theorem binds_of_answers {cs : List StoreCall} (h : Same table dict)
    (heq : (calls (SqliteNonceStore.call U) table cs).2 =
      (calls (InMemoryNonceStore.call U) dict cs).2) : ∀ c ∈ cs, c.Binds U := by
  induction cs generalizing table dict with
  | nil => exact List.forall_mem_nil _
  | cons c cs ih =>
    obtain ⟨hanswer, hanswers⟩ := List.cons.inj heq
    have hc : c.Binds U := by
      by_contra hc
      obtain ⟨hraises, hanswered⟩ := call_raises table dict hc
      exact hanswered (hanswer.symm.trans hraises)
    exact List.forall_mem_cons.mpr ⟨hc, ih (same_call h hc).1 hanswers⟩

end Call

/-- The stores are interchangeable exactly on calls whose arguments fit the columns. -/
theorem interchangeable_iff (U : Unicode) (cs : List StoreCall) :
    Interchangeable U cs ↔ ∀ c ∈ cs, c.Binds U := by
  constructor
  · exact fun h => binds_of_answers Sql.represents_empty h.answers
  · intro h
    refine ⟨(calls_same Sql.represents_empty h).2, fun p hp => ?_⟩
    exact (calls_same Sql.represents_empty fun c hc => h c (hp.subset hc)).1

/-! ## The server's store -/

section Server

variable {table : SqliteNonceStore} {dict : InMemoryNonceStore}

theorem has_eq (h : Same table dict) (k : NonceKey) :
    (⟨true, dict⟩ : NonceStore).has k = SqliteNonceStore.has table k ∧
      (⟨false, dict⟩ : NonceStore).has k = some (InMemoryNonceStore.has dict k) := by
  refine ⟨?_, rfl⟩
  have hsome := has_isSome table k
  cases hk : bindKey k with
  | none =>
    have hbindable : k.bindable = false := by
      rw [Bool.eq_false_iff, ne_eq, ← bindKey_isSome, hk]
      exact Bool.false_ne_true
    rw [hbindable, iff_false_right Bool.false_ne_true, Option.not_isSome_iff_eq_none] at hsome
    rw [hsome, NonceStore.has, hbindable]
    rfl
  | some key =>
    have hbindable : k.bindable = true := bindKey_isSome.mp (Option.isSome_of_eq_some hk)
    rw [has_of_bindKey h hk, NonceStore.has, hbindable]
    rfl

theorem add_eq (table : SqliteNonceStore) (k : NonceKey) (n : ℤ) :
    (⟨true, dict⟩ : NonceStore).add k n = (SqliteNonceStore.add table k n).map
        (fun _ => ⟨true, InMemoryNonceStore.add dict k n⟩) ∧
      (⟨false, dict⟩ : NonceStore).add k n = some ⟨false, InMemoryNonceStore.add dict k n⟩ := by
  have hadded (sqlite : Bool) : (if (dict.get? k).isSome then some (⟨sqlite, dict⟩ : NonceStore)
      else some ⟨sqlite, dict.set k n⟩) = some ⟨sqlite, InMemoryNonceStore.add dict k n⟩ := by
    unfold InMemoryNonceStore.add Dict.setDefault
    split <;> rfl
  refine ⟨?_, hadded false⟩
  have hsome := add_isSome table k n
  rw [← Bool.and_eq_true] at hsome
  cases hfit : k.bindable && fits n with
  | false =>
    rw [hfit, iff_false_right Bool.false_ne_true, Option.not_isSome_iff_eq_none] at hsome
    rw [hsome, NonceStore.add, hfit]
    rfl
  | true =>
    obtain ⟨table', hadd⟩ := Option.isSome_iff_exists.mp (hsome.mpr hfit)
    rw [hadd, NonceStore.add, hfit]
    exact hadded true

theorem purgeExpired_eq (sqlite : Bool) (now : ℤ) :
    (⟨sqlite, dict⟩ : NonceStore).purgeExpired now =
      ⟨sqlite, (InMemoryNonceStore.purgeExpired dict now).1⟩ := by
  rw [purgeExpired_memory, NonceStore.purgeExpired]

end Server

namespace Demo

/-- The digest of the buyer's authorization until `2 ^ 63`. -/
def farDigest : Bytes :=
  (account.encodeTypedData (directTypedData config buyer 0 (2 ^ 63) (nonceHex token))).getD []

/-- A payment that is valid until `2 ^ 63` is accepted, and only SQLite raises on its nonce. -/
theorem far_raises : ∃ v, validatePayment interpreter config 1000 ⟨true, ∅⟩
      (directContent config signer farDigest 0 (2 ^ 63) (nonceHex token)) = .ok v ∧
    v.validBefore = 2 ^ 63 ∧ ¬ Interchangeable interpreter.unicode
      [.add v.signer v.nonce v.validBefore (some config.chainId) (some v.verifyingContract)] := by
  have hencode : (account.encodeTypedData
      (directTypedData config buyer 0 (2 ^ 63) (nonceHex token))).isSome := by
    decide +kernel
  have hdigest : account.encodeTypedData
      (directTypedData config buyer 0 (2 ^ 63) (nonceHex token)) = some farDigest := by
    obtain ⟨d, hd⟩ := Option.isSome_iff_exists.mp hencode
    rw [farDigest, hd, Option.getD_some]
  have hfresh : (⟨true, ∅⟩ : NonceStore).has (directKey interpreter config signer
      (nonceHex token)) = some false := by
    decide +kernel
  obtain ⟨v, hvalid, -, hbefore, -⟩ := validatePayment_directContent unsigned lawful hdigest
    (show (0 : ℤ) ≤ 1000 by decide) (show (1000 : ℤ) < 2 ^ 63 by decide) hfresh
  refine ⟨v, hvalid, hbefore, fun h => ?_⟩
  have hfits := (binds_of_answers Sql.represents_empty h.answers _ List.mem_cons_self) _ rfl
  rw [hbefore] at hfits
  exact absurd hfits.2 (by decide)

end Demo

end DarkPool
end Arcane
