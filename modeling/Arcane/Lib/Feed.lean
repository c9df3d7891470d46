import Mathlib.Data.List.Induction
import Mathlib.Data.List.Nodup
import Mathlib.Data.List.Perm.Basic

/-!
# Feeds

A feed shows the newest of the items that arrive in batches. It sorts what is new in a batch, puts
it in front, and cuts the list; keys tell which items it has had before.

* `Feed.run`: the feed after some batches. `Feed.all`: the same without the cut.
* `run_events`: a feed shows the first items of the feed without a cut.
* `mem_all`, `nodup_all`: every item that arrived is there once.
* `gone`: what is cut does not come back.
* `all_eq_sort`: batches that arrive in order are as good as one.
-/

structure Feed (α K : Type) where
  seen : List K
  events : List α

namespace Feed

variable {α K : Type} [DecidableEq K] (key : α → K) (sort : List α → List α)

def empty : Feed α K := ⟨[], []⟩

/-- What is new in a batch. -/
def fresh (seen : List K) (incoming : List α) : List α := incoming.filter fun e => key e ∉ seen

/-- A batch arrives at a feed that keeps `cap` items. -/
def ingest (cap : ℕ) (f : Feed α K) (incoming : List α) : Feed α K :=
  if fresh key f.seen incoming = [] then f
  else
    { seen := (fresh key f.seen incoming).map key ++ f.seen
      events := (sort (fresh key f.seen incoming) ++ f.events).take cap }

def run (cap : ℕ) (batches : List (List α)) : Feed α K :=
  batches.foldl (ingest key sort cap) empty

/-- A batch arrives at a feed that keeps all items. -/
def absorb (f : Feed α K) (incoming : List α) : Feed α K where
  seen := (fresh key f.seen incoming).map key ++ f.seen
  events := sort (fresh key f.seen incoming) ++ f.events

def all (batches : List (List α)) : Feed α K := batches.foldl (absorb key sort) empty

section

variable {key sort} {cap : ℕ} {batches : List (List α)} {b incoming : List α} {e : α} {f : Feed α K}

theorem all_concat (batches : List (List α)) (b : List α) :
    all key sort (batches ++ [b]) = absorb key sort (all key sort batches) b := by
  rw [all, List.foldl_append]
  rfl

theorem run_concat (batches : List (List α)) (b : List α) :
    run key sort cap (batches ++ [b]) = ingest key sort cap (run key sort cap batches) b := by
  rw [run, List.foldl_append]
  rfl

theorem take_append_take (l l' : List α) (n : ℕ) : (l ++ l'.take n).take n = (l ++ l').take n := by
  rw [List.take_append, List.take_append, List.take_take, Nat.min_eq_left (Nat.sub_le _ _)]

/-- The feed is the beginning of the one without a cut. -/
theorem run_eq (hsort : ∀ l, (sort l).Perm l) (batches : List (List α)) :
    run key sort cap batches =
      ⟨(all key sort batches).seen, (all key sort batches).events.take cap⟩ := by
  induction batches using List.reverseRecOn with
  | nil => simp [run, all, empty]
  | append_singleton batches b ih =>
    rw [run_concat, all_concat, ih, ingest]
    split
    · next hnone =>
      dsimp only at hnone
      rw [absorb, hnone, (hsort []).eq_nil]
      rfl
    · rw [absorb, take_append_take]

theorem run_events (hsort : ∀ l, (sort l).Perm l) (batches : List (List α)) :
    (run key sort cap batches).events = (all key sort batches).events.take cap := by
  rw [run_eq hsort]

/-- The keys that were seen are those of the items. -/
theorem seen_all (hsort : ∀ l, (sort l).Perm l) (batches : List (List α)) :
    (all key sort batches).seen.Perm ((all key sort batches).events.map key) := by
  induction batches using List.reverseRecOn with
  | nil => exact .nil
  | append_singleton batches b ih =>
    rw [all_concat, absorb, List.map_append]
    exact ((hsort _).map key).symm.append ih

/-- The key of every item that arrived was seen. -/
theorem seen_of_mem (hb : b ∈ batches) (he : e ∈ b) :
    key e ∈ (all key sort batches).seen := by
  induction batches using List.reverseRecOn with
  | nil => cases hb
  | append_singleton batches c ih =>
    rw [all_concat, absorb, List.mem_append]
    obtain hb | hb := List.mem_append.mp hb
    · exact .inr (ih hb)
    · obtain rfl := List.mem_singleton.mp hb
      by_cases hseen : key e ∈ (all key sort batches).seen
      · exact .inr hseen
      · exact .inl (List.mem_map_of_mem (List.mem_filter.mpr ⟨he, decide_eq_true hseen⟩))

/-- Items that have the same key are the same. -/
def Distinct (key : α → K) (batches : List (List α)) : Prop :=
  ∀ b ∈ batches, ∀ c ∈ batches, ∀ d ∈ b, ∀ e ∈ c, key d = key e → d = e

omit [DecidableEq K] in
theorem Distinct.init (h : Distinct key (batches ++ [b])) : Distinct key batches :=
  fun b hb c hc => h b (List.mem_append_left _ hb) c (List.mem_append_left _ hc)

theorem mem_of_mem_all (hsort : ∀ l, (sort l).Perm l) (h : e ∈ (all key sort batches).events) :
    ∃ b ∈ batches, e ∈ b := by
  induction batches using List.reverseRecOn with
  | nil => cases h
  | append_singleton batches b ih =>
    rw [all_concat, absorb, List.mem_append, (hsort _).mem_iff] at h
    obtain h | h := h
    · exact ⟨b, by simp, (List.mem_filter.mp h).1⟩
    · obtain ⟨c, hc, he⟩ := ih h
      exact ⟨c, List.mem_append_left _ hc, he⟩

/-- Every item that arrived is kept. -/
theorem mem_all (hsort : ∀ l, (sort l).Perm l) (hkeys : Distinct key batches) :
    e ∈ (all key sort batches).events ↔ ∃ b ∈ batches, e ∈ b := by
  refine ⟨mem_of_mem_all hsort, ?_⟩
  induction batches using List.reverseRecOn with
  | nil => simp
  | append_singleton batches b ih =>
    rintro ⟨c, hc, he⟩
    rw [all_concat, absorb, List.mem_append, (hsort _).mem_iff]
    obtain hc | hc := List.mem_append.mp hc
    · exact .inr (ih hkeys.init ⟨c, hc, he⟩)
    · obtain rfl := List.mem_singleton.mp hc
      by_cases hseen : key e ∈ (all key sort batches).seen
      · rw [(seen_all hsort batches).mem_iff, List.mem_map] at hseen
        obtain ⟨d, hd, hkey⟩ := hseen
        obtain ⟨b', hb', hdb⟩ := mem_of_mem_all hsort hd
        have hsame : d = e := hkeys b' (by simp [hb']) c (by simp) d hdb e he hkey
        exact .inr (hsame ▸ hd)
      · exact .inl (List.mem_filter.mpr ⟨he, decide_eq_true hseen⟩)

/-- No item is kept twice. -/
theorem nodup_all (hsort : ∀ l, (sort l).Perm l) (h : ∀ b ∈ batches, (b.map key).Nodup) :
    ((all key sort batches).events.map key).Nodup := by
  induction batches using List.reverseRecOn with
  | nil => exact .nil
  | append_singleton batches b ih =>
    rw [all_concat, absorb, List.map_append]
    refine List.Nodup.append ?_ (ih fun c hc => h c (List.mem_append_left _ hc)) ?_
    · rw [((hsort _).map key).nodup_iff]
      exact (h b (by simp)).sublist (List.filter_sublist.map key)
    · intro k hk hold
      rw [((hsort _).map key).mem_iff, List.mem_map] at hk
      obtain ⟨d, hd, rfl⟩ := hk
      rw [← (seen_all hsort batches).mem_iff] at hold
      exact of_decide_eq_true (List.mem_filter.mp hd).2 hold

variable (key) in
/-- Later batches only put items in front. -/
theorem all_append (hsort : ∀ l, (sort l).Perm l) (batches later : List (List α)) :
    ∃ front, (all key sort (batches ++ later)).events = front ++ (all key sort batches).events ∧
      ∀ e ∈ front, key e ∉ (all key sort batches).seen := by
  induction later using List.reverseRecOn with
  | nil => exact ⟨[], by simp, by simp⟩
  | append_singleton later b ih =>
    obtain ⟨front, hfront, hnew⟩ := ih
    have hseen : ∀ k ∈ (all key sort batches).seen, k ∈ (all key sort (batches ++ later)).seen := by
      intro k hk
      rw [(seen_all hsort _).mem_iff] at hk ⊢
      rw [hfront, List.map_append]
      exact List.mem_append_right _ hk
    refine ⟨sort (fresh key (all key sort (batches ++ later)).seen b) ++ front, ?_, ?_⟩
    · rw [← List.append_assoc, all_concat, absorb, hfront, List.append_assoc]
    · intro e he hold
      obtain he | he := List.mem_append.mp he
      · rw [(hsort _).mem_iff] at he
        exact of_decide_eq_true (List.mem_filter.mp he).2 (hseen _ hold)
      · exact hnew e he hold

/-- An item that arrived and is not shown is never shown. -/
theorem gone (hsort : ∀ l, (sort l).Perm l) (hkeys : Distinct key batches) (hb : b ∈ batches)
    (he : e ∈ b) (hcut : e ∉ (run key sort cap batches).events) (later : List (List α)) :
    e ∉ (run key sort cap (batches ++ later)).events := by
  have hmem := (mem_all hsort hkeys).mpr ⟨b, hb, he⟩
  obtain ⟨front, hfront, hnew⟩ := all_append key hsort batches later
  rw [run_events hsort] at hcut ⊢
  rw [hfront, List.take_append, List.mem_append, not_or]
  refine ⟨fun h => ?_, fun h => ?_⟩
  · refine hnew e (List.mem_of_mem_take h) ?_
    rw [(seen_all hsort batches).mem_iff]
    exact List.mem_map_of_mem hmem
  · exact hcut ((List.take_subset_take_left _ (Nat.sub_le _ _)) h)

/-- A batch that fills the feed leaves nothing else in it. -/
theorem shown_of_full (hsort : ∀ l, (sort l).Perm l) (batches : List (List α)) (b : List α)
    (hfull : cap ≤ (fresh key (all key sort batches).seen b).length) {e : α}
    (he : e ∈ (run key sort cap (batches ++ [b])).events) : e ∈ b := by
  rw [run_events hsort, all_concat, absorb, List.take_append_of_le_length
    (by rw [(hsort _).length_eq]; exact hfull)] at he
  have hmem := (hsort _).mem_iff.mp (List.mem_of_mem_take he)
  exact (List.mem_filter.mp hmem).1

end

/-! ## Items that are read as others -/

section Map

variable {β : Type} {key : α → K} {sort : List α → List α} {key' : β → K} {sort' : List β → List β}
  {f : α → β} {cap : ℕ}

theorem fresh_map (hkey : ∀ a, key' (f a) = key a) (seen : List K) (incoming : List α) :
    fresh key' seen (incoming.map f) = (fresh key seen incoming).map f := by
  rw [fresh, fresh, List.filter_map]
  congr 1
  refine List.filter_congr fun a _ => ?_
  rw [Function.comp_apply, hkey]

/-- A feed of items that are read as others, with the same keys and in the same order. -/
theorem run_map (hkey : ∀ a, key' (f a) = key a) (hsort : ∀ l, sort' (l.map f) = (sort l).map f)
    (batches : List (List α)) : run key' sort' cap (batches.map (List.map f)) =
      ⟨(run key sort cap batches).seen, (run key sort cap batches).events.map f⟩ := by
  induction batches using List.reverseRecOn with
  | nil => rfl
  | append_singleton batches b ih =>
    have hkeys (l : List α) : (l.map f).map key' = l.map key := by
      rw [List.map_map]
      exact List.map_congr_left fun a _ => hkey a
    rw [List.map_append, List.map_singleton, run_concat, run_concat, ih, ingest, ingest]
    simp only [fresh_map hkey, List.map_eq_nil_iff]
    split
    · rfl
    · rw [hkeys, hsort, ← List.map_append, List.map_take]

end Map

/-! ## Batches in order -/

section Order

variable {before : α → α → Prop} {cap : ℕ} {batches : List (List α)} {l : List α}

variable {key sort} in
/-- Batches that arrive in order, each sorted, make a sorted feed. -/
theorem pairwise_all (hsort : ∀ l, (sort l).Perm l)
    (hsorted : ∀ b ∈ batches, ∀ seen, (sort (fresh key seen b)).Pairwise before)
    (horder : batches.Pairwise fun b c => ∀ d ∈ b, ∀ e ∈ c, key e ∉ b.map key → before e d) :
    (all key sort batches).events.Pairwise before := by
  induction batches using List.reverseRecOn with
  | nil => exact .nil
  | append_singleton batches b ih =>
    rw [List.pairwise_append] at horder
    rw [all_concat, absorb, List.pairwise_append]
    refine ⟨hsorted b (by simp) _, ih (fun c hc => hsorted c (List.mem_append_left _ hc)) horder.1,
      fun e he d hd => ?_⟩
    rw [(hsort _).mem_iff, fresh, List.mem_filter] at he
    obtain ⟨c, hc, hdc⟩ := mem_of_mem_all hsort hd
    refine horder.2.2 c hc b (by simp) d hdc e he.1 fun hkey => of_decide_eq_true he.2 ?_
    obtain ⟨x, hx, hsame⟩ := List.mem_map.mp hkey
    exact hsame ▸ seen_of_mem hc hx

variable {key sort} in
/-- Batches that arrive in order show what one batch with all their items does. -/
theorem all_eq_sort [Std.Asymm before] (hsort : ∀ l, (sort l).Perm l)
    (hsorted : ∀ b ∈ batches, ∀ seen, (sort (fresh key seen b)).Pairwise before)
    (horder : batches.Pairwise fun b c => ∀ d ∈ b, ∀ e ∈ c, key e ∉ b.map key → before e d)
    (hperm : (all key sort batches).events.Perm l) (hl : (sort l).Pairwise before) :
    (all key sort batches).events = sort l := by
  refine (hperm.trans (hsort l).symm).eq_of_pairwise ?_ (pairwise_all hsort hsorted horder) hl
  intro d e _ _ hde hed
  exact absurd hed (Std.Asymm.asymm _ _ hde)

end Order

end Feed
