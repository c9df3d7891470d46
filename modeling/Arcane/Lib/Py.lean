import Mathlib.Logic.Basic

/-!
# Programs that act on a world

A program of type `Py W α` acts on a world of type `W`, and returns a value or raises. What it did
to the world before it raised stays done. What a program calls outside itself is a parameter of it:
a function to `Py W`, of which nothing is known but what a theorem assumes.

* `raise`, `attempt`: an exception, and the `try` that catches it.
* `Within R x`: `x` keeps to the relation `R` between the worlds before and after, whether it
  returns or raises.
* `Returns P x Q`: from every world in `P`, `x` returns, and `Q` holds of what it leaves.
-/

/-- The value that is returned, `none` if the program raises, and the world after it. -/
def Py (W α : Type) : Type := W → Option α × W

namespace Py

variable {W α β : Type}

instance : Monad (Py W) where
  pure a w := (some a, w)
  bind x f w :=
    match x w with
    | (some a, w) => f a w
    | (none, w) => (none, w)

/-- An exception; which one, nothing reads. -/
def raise : Py W α := fun w => (none, w)

/-- `try: x`: what it returns, or `none` if it raises. -/
def attempt (x : Py W α) : Py W (Option α) := fun w => (some (x w).1, (x w).2)

section Outcomes

variable {x : Py W α} {f : α → Py W β} {a a' : α} {b : β} {w w' : W} {o : Option α}

theorem pure_eq : (pure a : Py W α) w = (o, w') ↔ some a = o ∧ w = w' :=
  iff_of_eq (Prod.mk.injEq ..)

theorem bind_eq_some : (x >>= f) w = (some b, w') ↔
    ∃ a w₁, x w = (some a, w₁) ∧ f a w₁ = (some b, w') := by
  rcases h : x w with ⟨_ | a, w₁⟩
  · simp [bind, h]
  · simp only [bind, h, Prod.mk.injEq, Option.some.injEq]
    constructor
    · intro hf
      exact ⟨a, w₁, ⟨rfl, rfl⟩, hf⟩
    · rintro ⟨_, _, ⟨rfl, rfl⟩, hf⟩
      exact hf

theorem bind_eq (h : x w = (some a, w')) : (x >>= f) w = f a w' := by
  simp only [bind, h]

theorem attempt_eq (h : x w = (o, w')) : attempt x w = (some o, w') := by
  rw [attempt, h]

theorem attempt_eq_some {r : Option (Option α)} : attempt x w = (r, w') ↔
    ∃ o, r = some o ∧ x w = (o, w') := by
  rcases h : x w with ⟨o, w₁⟩
  rw [attempt_eq h]
  constructor
  · intro heq
    obtain ⟨rfl, rfl⟩ := Prod.mk.inj heq
    exact ⟨o, rfl, rfl⟩
  · rintro ⟨o', rfl, heq⟩
    obtain ⟨rfl, rfl⟩ := Prod.mk.inj heq
    rfl

end Outcomes

section Within

variable {R : W → W → Prop} {x : Py W α} {f : α → Py W β}

/-- However it ends, the program keeps to the relation. -/
def Within (R : W → W → Prop) (x : Py W α) : Prop := ∀ w, R w (x w).2

theorem Within.eq (h : Within R x) {w w' : W} {o : Option α} (hx : x w = (o, w')) : R w w' := by
  have hw := h w
  rwa [hx] at hw

theorem within_pure (hrefl : ∀ w, R w w) (a : α) : Within R (pure a : Py W α) := hrefl

theorem within_raise (hrefl : ∀ w, R w w) : Within R (raise : Py W α) := hrefl

theorem Within.bind (htrans : ∀ w₁ w₂ w₃, R w₁ w₂ → R w₂ w₃ → R w₁ w₃) (hx : Within R x)
    (hf : ∀ a, Within R (f a)) : Within R (x >>= f) := by
  intro w
  have hw := hx w
  rcases h : x w with ⟨_ | a, w₁⟩
  · rw [h] at hw
    simpa only [Bind.bind, h] using hw
  · rw [h] at hw
    rw [bind_eq h]
    exact htrans _ _ _ hw (hf a w₁)

theorem Within.attempt (hx : Within R x) : Within R (attempt x) := hx

end Within

section Returns

variable {P P' : W → Prop} {Q Q' : α → W → Prop} {S : β → W → Prop} {x : Py W α} {f : α → Py W β}

/-- From every world in `P` the program returns, and `Q` holds then. -/
def Returns (P : W → Prop) (x : Py W α) (Q : α → W → Prop) : Prop :=
  ∀ w, P w → ∃ a w', x w = (some a, w') ∧ Q a w'

theorem returns_pure {a : α} (h : ∀ w, P w → Q a w) : Returns P (pure a : Py W α) Q :=
  fun w hw => ⟨a, w, rfl, h w hw⟩

theorem Returns.bind (hx : Returns P x Q) (hf : ∀ a, Returns (Q a) (f a) S) :
    Returns P (x >>= f) S := by
  intro w hw
  obtain ⟨a, w₁, hx, hq⟩ := hx w hw
  rw [bind_eq hx]
  exact hf a w₁ hq

theorem Returns.mono (h : Returns P x Q) (hP : ∀ w, P' w → P w) (hQ : ∀ a w, Q a w → Q' a w) :
    Returns P' x Q' := by
  intro w hw
  obtain ⟨a, w', hx, hq⟩ := h w (hP w hw)
  exact ⟨a, w', hx, hQ a w' hq⟩

theorem Returns.and (h : Returns P x Q) (h' : Returns P x Q') :
    Returns P x fun a w => Q a w ∧ Q' a w := by
  intro w hw
  obtain ⟨a, w₁, hx, hq⟩ := h w hw
  obtain ⟨a', w₂, hx', hq'⟩ := h' w hw
  obtain ⟨heq, rfl⟩ := Prod.mk.inj (hx.symm.trans hx')
  obtain rfl := Option.some.inj heq
  exact ⟨a, w₁, hx, hq, hq'⟩

/-- What returns, `try` does not change. -/
theorem Returns.attempt (h : Returns P x Q) :
    Returns P (attempt x) fun o w => ∃ a, o = some a ∧ Q a w := by
  intro w hw
  obtain ⟨a, w', hx, hq⟩ := h w hw
  exact ⟨some a, w', attempt_eq hx, a, rfl, hq⟩

end Returns

end Py
