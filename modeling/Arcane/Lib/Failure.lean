import Mathlib.Data.List.Forall2

/-!
# The first failure

Of a program that runs checks one after the other, `failure` is the exception it raises. It is the
first of the failures of its parts (`failure_bind`, `failure_mapM`).
-/

namespace Failure

variable {ε α β : Type}

/-- The exception, if one is raised. -/
def failure : Except ε α → Option ε
  | .error e => some e
  | .ok _ => none

/-- The first of some failures. -/
def first (l : List (Option ε)) : Option ε := l.findSome? id

@[simp]
theorem failure_ok (a : α) : failure (.ok a : Except ε α) = none := rfl

@[simp]
theorem failure_error (e : ε) : failure (.error e : Except ε α) = some e := rfl

@[simp]
theorem first_nil : first ([] : List (Option ε)) = none := rfl

@[simp]
theorem first_cons_none (l : List (Option ε)) : first (none :: l) = first l := rfl

@[simp]
theorem first_cons_some (e : ε) (l : List (Option ε)) : first (some e :: l) = some e := rfl

theorem failure_eq_some {x : Except ε α} {e : ε} : failure x = some e ↔ x = .error e := by
  cases x <;> simp

theorem failure_eq_none {x : Except ε α} : failure x = none ↔ ∃ a, x = .ok a := by
  cases x <;> simp

/-- A failure, and what is done unless there is one. -/
theorem failure_bind {x : Except ε α} {f : α → Except ε β} {l : List (Option ε)}
    (h : ∀ a, x = .ok a → failure (f a) = first l) :
    failure (x >>= f) = first (failure x :: l) := by
  cases x with
  | error e => rfl
  | ok a => exact h a rfl

theorem failure_mapM (f : α → Except ε β) (l : List α) :
    failure (l.mapM f) = first (l.map fun a => failure (f a)) := by
  induction l with
  | nil => rfl
  | cons a l ih =>
    rw [List.mapM_cons]
    apply failure_bind
    intro b _
    rw [← ih]
    cases l.mapM f <;> rfl

/-- The results of a loop that raises nothing. -/
theorem forall₂_of_mapM {f : α → Except ε β} {l : List α} {l' : List β} (h : l.mapM f = .ok l') :
    List.Forall₂ (fun a b => f a = .ok b) l l' := by
  induction l generalizing l' with
  | nil =>
    cases h
    exact .nil
  | cons a l ih =>
    rw [List.mapM_cons] at h
    cases ha : f a with
    | error e =>
      rw [ha] at h
      cases h
    | ok b =>
      cases hl : l.mapM f with
      | error e =>
        rw [ha, hl] at h
        cases h
      | ok bs =>
        rw [ha, hl] at h
        cases h
        exact .cons ha (ih hl)

theorem mapM_of_forall₂ {f : α → Except ε β} {l : List α} {l' : List β}
    (h : List.Forall₂ (fun a b => f a = .ok b) l l') : l.mapM f = .ok l' := by
  induction h with
  | nil => rfl
  | cons ha _ ih =>
    rw [List.mapM_cons, ha, ih]
    rfl

/-- Each result is that of an item, and each item has one. -/
theorem mem_of_forall₂ {r : α → β → Prop} {l : List α} {l' : List β} (h : List.Forall₂ r l l') :
    (∀ b ∈ l', ∃ a ∈ l, r a b) ∧ ∀ a ∈ l, ∃ b ∈ l', r a b := by
  induction h with
  | nil => simp
  | @cons a b l l' hr _ ih =>
    simp only [List.forall_mem_cons, List.exists_mem_cons_iff]
    exact ⟨⟨.inl hr, fun b hb => .inr (ih.1 b hb)⟩, .inl hr, fun a ha => .inr (ih.2 a ha)⟩

end Failure
