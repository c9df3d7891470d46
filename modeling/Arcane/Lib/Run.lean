import Mathlib.Data.List.Induction

/-!
# Runs of a state machine and what holds along them

A machine is a relation `R s e s'`: event `e` takes state `s` to `s'`. A run keeps the list of
its steps, each with the states before and after it, so that a property may speak about the
history and not only about the state reached.

* `Run.invariant`: a state property that every step keeps.
* `Run.history`: a property of the steps so far and the state they reach.
* `Run.split`, `Run.of_mem`: a run cut at one of its steps.
* `Run.forall_mem`, `Run.restrict`: from one step to all steps of a run, and back.
* `Run.simulate`: the runs of a machine whose steps are runs of another machine.
* `Run.of_exec`: the run that an executable step function computes.
* `Latest P tr st tr₂`: the latest of the steps `tr` with the property `P`.
-/

namespace Trace

/-- One step: the event with the states before and after it. -/
structure Step (σ ε : Type) where
  pre : σ
  ev : ε
  post : σ

/-- `Run R s₀ tr s`: the steps `tr` lead from `s₀` to `s`. -/
inductive Run {σ ε : Type} (R : σ → ε → σ → Prop) (s₀ : σ) : List (Step σ ε) → σ → Prop
  | nil : Run R s₀ [] s₀
  | snoc {tr : List (Step σ ε)} {s s' : σ} (e : ε) :
      Run R s₀ tr s → R s e s' → Run R s₀ (tr ++ [⟨s, e, s'⟩]) s'

namespace Run

variable {σ ε : Type} {R : σ → ε → σ → Prop} {s₀ s : σ} {tr : List (Step σ ε)}

/-- An inductive invariant holds in the state reached. -/
theorem invariant {I : σ → Prop} (h : Run R s₀ tr s) (h₀ : I s₀)
    (hs : ∀ s e s', I s → R s e s' → I s') : I s := by
  induction h with
  | nil => exact h₀
  | snoc e _ hst ih => exact hs _ _ _ ih hst

/-- A property of the steps so far and the state they reach, kept by every further step. -/
theorem history {P : List (Step σ ε) → σ → Prop} (h : Run R s₀ tr s) (h₀ : P [] s₀)
    (hs : ∀ tr s e s', Run R s₀ tr s → P tr s → R s e s' → P (tr ++ [⟨s, e, s'⟩]) s') :
    P tr s := by
  induction h with
  | nil => exact h₀
  | snoc e hr hst ih => exact hs _ _ e _ hr ih hst

theorem append {s' : σ} {tr' : List (Step σ ε)} (h : Run R s₀ tr s) (h' : Run R s tr' s') :
    Run R s₀ (tr ++ tr') s' := by
  induction h' with
  | nil => simpa using h
  | snoc e _ hst ih => rw [← List.append_assoc]; exact ih.snoc e hst

/-- The last step of a run. -/
theorem snoc_inv {st : Step σ ε} (h : Run R s₀ (tr ++ [st]) s) :
    Run R s₀ tr st.pre ∧ R st.pre st.ev st.post ∧ s = st.post := by
  generalize he : tr ++ [st] = tr' at h
  cases h with
  | nil => simp at he
  | snoc e hr hst =>
    obtain ⟨rfl, hlast⟩ := List.append_inj' he rfl
    simp only [List.cons.injEq, and_true] at hlast
    subst hlast
    exact ⟨hr, hst, rfl⟩

/-- A run cut after its first `tr` steps. -/
theorem of_append {tr' : List (Step σ ε)} (h : Run R s₀ (tr ++ tr') s) :
    ∃ s₁, Run R s₀ tr s₁ ∧ Run R s₁ tr' s := by
  induction tr' using List.reverseRecOn generalizing s with
  | nil => exact ⟨s, by simpa using h, .nil⟩
  | append_singleton tr' st ih =>
    rw [← List.append_assoc] at h
    obtain ⟨hr, hst, rfl⟩ := h.snoc_inv
    obtain ⟨s₁, h₁, h₂⟩ := ih hr
    exact ⟨s₁, h₁, h₂.snoc _ hst⟩

/-- A run cut at one of its steps. -/
theorem split {st : Step σ ε} {tr' : List (Step σ ε)} (h : Run R s₀ (tr ++ st :: tr') s) :
    Run R s₀ tr st.pre ∧ R st.pre st.ev st.post ∧ Run R st.post tr' s := by
  rw [List.append_cons] at h
  obtain ⟨s₁, h₁, h₂⟩ := h.of_append
  obtain ⟨hr, hst, rfl⟩ := h₁.snoc_inv
  exact ⟨hr, hst, h₂⟩

/-- Every step of a run starts where the steps before it end. -/
theorem of_mem {st : Step σ ε} (h : Run R s₀ tr s) (hm : st ∈ tr) :
    ∃ tr₁ tr₂, tr = tr₁ ++ st :: tr₂ ∧ Run R s₀ tr₁ st.pre ∧ R st.pre st.ev st.post ∧
      Run R st.post tr₂ s := by
  obtain ⟨tr₁, tr₂, rfl⟩ := List.append_of_mem hm
  exact ⟨tr₁, tr₂, rfl, h.split⟩

/-- A property of every step, from the reachability of the state it starts in. -/
theorem forall_mem {P : Step σ ε → Prop} (h : Run R s₀ tr s)
    (hs : ∀ tr s e s', Run R s₀ tr s → R s e s' → P ⟨s, e, s'⟩) : ∀ st ∈ tr, P st := by
  intro st hm
  obtain ⟨tr₁, _, -, hr, hst, -⟩ := h.of_mem hm
  exact hs tr₁ st.pre st.ev st.post hr hst

/-- A run of a machine is one of every machine with more steps. -/
theorem mono {R' : σ → ε → σ → Prop} (h : Run R s₀ tr s) (hR : ∀ s e s', R s e s' → R' s e s') :
    Run R' s₀ tr s := by
  induction h with
  | nil => exact .nil
  | snoc e _ hst ih => exact ih.snoc e (hR _ _ _ hst)

/-- A run restricted to steps with a property that each of its steps has. -/
theorem restrict {P : Step σ ε → Prop} (h : Run R s₀ tr s) (hP : ∀ st ∈ tr, P st) :
    Run (fun s e s' => R s e s' ∧ P ⟨s, e, s'⟩) s₀ tr s := by
  induction h with
  | nil => exact .nil
  | snoc e _ hst ih =>
    refine (ih fun st hm => hP st (by simp [hm])).snoc e ⟨hst, hP _ (by simp)⟩

/-- A machine each of whose steps is a run of another machine on a part `f` of its state: so is each
of its runs. -/
theorem simulate {τ δ : Type} {R' : τ → δ → τ → Prop} {f : σ → τ} (h : Run R s₀ tr s)
    (hs : ∀ s e s', R s e s' → ∃ tr', Run R' (f s) tr' (f s')) :
    ∃ tr', Run R' (f s₀) tr' (f s) := by
  induction h with
  | nil => exact ⟨[], .nil⟩
  | snoc e _ hst ih =>
    obtain ⟨tr₁, h₁⟩ := ih
    obtain ⟨tr₂, h₂⟩ := hs _ _ _ hst
    exact ⟨tr₁ ++ tr₂, h₁.append h₂⟩

/-- What an executable step function `f` does with a list of inputs. -/
def exec {ι : Type} (f : σ → ι → Option (ε × σ)) : σ → List ι → Option (List (Step σ ε) × σ)
  | s, [] => some ([], s)
  | s, i :: is => do
    let (e, s') ← f s i
    let (tr, s'') ← exec f s' is
    return (⟨s, e, s'⟩ :: tr, s'')

/-- An executed list of inputs is a run. -/
theorem of_exec {ι : Type} {f : σ → ι → Option (ε × σ)}
    (hf : ∀ s i e s', f s i = some (e, s') → R s e s') {is : List ι} :
    ∀ {s : σ} {r : List (Step σ ε) × σ}, exec f s is = some r → Run R s r.1 r.2 := by
  induction is with
  | nil =>
    intro s r h
    simp only [exec, Option.some.injEq] at h
    subst h
    exact .nil
  | cons i is ih =>
    intro s r h
    simp only [exec, Option.bind_eq_bind, Option.bind_eq_some_iff, Prod.exists] at h
    obtain ⟨e, s', hi, tr, s'', hr, heq⟩ := h
    simp only [pure, Option.some.injEq] at heq
    subst heq
    have h₁ : Run R s ([] ++ [⟨s, e, s'⟩]) s' := Run.nil.snoc e (hf _ _ _ _ hi)
    simpa using h₁.append (ih hr)

end Run

/-- `st` is the latest of the steps `tr` with the property `P`, and `tr₂` are the steps after
it. -/
def Latest {σ ε : Type} (P : Step σ ε → Prop) (tr : List (Step σ ε)) (st : Step σ ε)
    (tr₂ : List (Step σ ε)) : Prop :=
  (∃ tr₁, tr = tr₁ ++ st :: tr₂) ∧ P st ∧ ∀ x ∈ tr₂, ¬ P x

namespace Latest

variable {σ ε : Type} {P : Step σ ε → Prop} {tr tr₂ : List (Step σ ε)} {st x : Step σ ε}

/-- A step with the property is the latest one. -/
theorem last (h : P st) : Latest P (tr ++ [st]) st [] := ⟨⟨tr, rfl⟩, h, by simp⟩

/-- A step without the property leaves the latest one as it is. -/
theorem snoc (h : Latest P tr st tr₂) (hx : ¬ P x) : Latest P (tr ++ [x]) st (tr₂ ++ [x]) := by
  obtain ⟨⟨tr₁, rfl⟩, hst, hn⟩ := h
  refine ⟨⟨tr₁, by simp⟩, hst, fun y hy => ?_⟩
  rcases List.mem_append.mp hy with hy | hy
  · exact hn y hy
  · rw [List.mem_singleton.mp hy]
    exact hx

end Latest

/-- A list of steps cut at its step number `k`. -/
theorem cut {σ ε : Type} {tr : List (Step σ ε)} {k : ℕ} {st : Step σ ε} (h : tr[k]? = some st) :
    tr = tr.take k ++ st :: tr.drop (k + 1) := by
  obtain ⟨hk, rfl⟩ := List.getElem?_eq_some_iff.mp h
  rw [List.getElem_cons_drop, List.take_append_drop]

end Trace
