import Arcane.Lib.Evm
import Arcane.Lib.Run

/-!
# Contracts as state machines

A contract is a function `exec` from a state and a call to a transaction. Its machine takes a step
for every accepted call that is `legal`, that is, one that an account may make (`Accepts`).

* `transact`: the state after any call. A reverted call leaves it as it was.
* `play`: the run of a list of calls, computed. `Run.of_play`: it is a run.
-/

namespace Evm

section

variable {σ ι ε : Type} (legal : ι → Prop) (exec : σ → ι → Tx ε σ)

/-- An accepted call. A reverted call changes nothing and is no step. -/
def Accepts (s : σ) (i : ι) (s' : σ) : Prop := legal i ∧ exec s i = .ok s'

/-- The state after a call: a reverted call leaves it as it was. -/
def transact (s : σ) (i : ι) : σ :=
  match exec s i with
  | .ok s' => s'
  | .error _ => s

/-- What a call does as a step, when it is legal and accepted. -/
def accept [DecidablePred legal] (s : σ) (i : ι) : Option (ι × σ) :=
  if legal i then
    match exec s i with
    | .ok s' => some (i, s')
    | .error _ => none
  else none

/-- The run that a list of calls makes, when all are accepted. -/
def play [DecidablePred legal] (s : σ) (calls : List ι) : Option (List (Trace.Step σ ι) × σ) :=
  Trace.Run.exec (accept legal exec) s calls

end

variable {σ ι ε : Type} {legal : ι → Prop} {exec : σ → ι → Tx ε σ} {s s' : σ} {i j : ι}

theorem transact_error {r : Revert ε} (h : exec s i = .error r) : transact exec s i = s := by
  rw [transact, h]

theorem accept_some [DecidablePred legal] (h : accept legal exec s i = some (j, s')) :
    Accepts legal exec s j s' := by
  unfold accept at h
  split at h
  · rename_i hl
    split at h
    · rename_i hx
      simp only [Option.some.injEq, Prod.mk.injEq] at h
      obtain ⟨rfl, rfl⟩ := h
      exact ⟨hl, hx⟩
    · cases h
  · cases h

/-- The calls that `play` accepts are a run. -/
theorem Run.of_play [DecidablePred legal] {calls : List ι} {r : List (Trace.Step σ ι) × σ}
    (h : play legal exec s calls = some r) : Trace.Run (Accepts legal exec) s r.1 r.2 :=
  Trace.Run.of_exec (f := accept legal exec) (fun _ _ _ _ hi => accept_some hi) h

end Evm
