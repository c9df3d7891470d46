import Arcane.Lib.Run

/-!
# Append-only logs and counters of a machine

* `Run.log_prefix`: a log that no step shortens or rewrites extends every earlier one.
* `Run.exists_write`: in a log that grows by single items, every item has the step that wrote it.
* `Run.counted`: a counter that some of the steps advance by one hands out 1, 2, 3, and so on.
-/

namespace Trace
namespace Run

variable {σ ε α : Type} {R : σ → ε → σ → Prop} {s₀ s s' : σ} {tr : List (Step σ ε)}

theorem log_prefix (log : σ → List α) (h : Run R s tr s')
    (hs : ∀ s e s', R s e s' → log s <+: log s') : log s <+: log s' := by
  induction h with
  | nil => exact List.prefix_rfl
  | snoc e _ hst ih => exact ih.trans (hs _ _ _ hst)

theorem exists_write (log : σ → List α) (h : Run R s₀ tr s) (h₀ : log s₀ = [])
    (hs : ∀ s e s', R s e s' → log s' = log s ∨ ∃ a, log s' = log s ++ [a]) {i : ℕ} {a : α}
    (ha : (log s)[i]? = some a) :
    ∃ st ∈ tr, R st.pre st.ev st.post ∧ (log st.pre).length = i ∧
      log st.post = log st.pre ++ [a] := by
  induction h with
  | nil =>
    rw [h₀] at ha
    cases ha
  | @snoc tr s s' e _ hst ih =>
    have hold (hi : (log s)[i]? = some a) : ∃ st ∈ tr ++ [⟨s, e, s'⟩], R st.pre st.ev st.post ∧
        (log st.pre).length = i ∧ log st.post = log st.pre ++ [a] := by
      obtain ⟨st, hmem, hst⟩ := ih hi
      exact ⟨st, List.mem_append_left _ hmem, hst⟩
    obtain heq | ⟨b, hb⟩ := hs _ _ _ hst
    · exact hold (heq ▸ ha)
    · -- the item is the new one, or it was there before
      rw [hb] at ha
      by_cases hi : i < (log s).length
      · rw [List.getElem?_append_left hi] at ha
        exact hold ha
      · rw [List.getElem?_append_right (Nat.not_lt.mp hi)] at ha
        obtain ⟨hlt, heq⟩ := List.getElem?_eq_some_iff.mp ha
        have hlen : (log s).length = i := by
          rw [List.length_singleton] at hlt
          omega
        have hba : b = a := by simpa using heq
        exact ⟨⟨s, e, s'⟩, by simp, hst, hlen, hba ▸ hb⟩

theorem counted (count : σ → ℕ) {p : Step σ ε → Bool} (h : Run R s₀ tr s) (h₀ : count s₀ = 0)
    (hs : ∀ s e s', R s e s' → count s' = count s + if p ⟨s, e, s'⟩ then 1 else 0) :
    (tr.filter p).map (fun st => count st.post) = List.range' 1 (count s) := by
  induction h with
  | nil => simp [h₀]
  | snoc e _ hst ih =>
    have hcount := hs _ _ _ hst
    rw [List.filter_append, List.map_append, ih]
    split at hcount
    · next hp => simp [hp, hcount, List.range'_concat, Nat.add_comm]
    · next hp => simp [hp, hcount]

end Run
end Trace
