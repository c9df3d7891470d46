import Arcane.Constitution.Agreement

/-!
# The registry by content

* `exist_of_run`: what is defined stays as it is.
* `enforce_missing`: a rule that has its adapter is never refused for the lack of one.
* `content_addressed`: what is stored under a hash, and what follows for the validator.
-/

namespace Arcane
namespace Constitution

open Text Evm Abi Trace

section Content

variable {keccak256 : Bytes → Bytes32} {adapters : Adapters} {s s' : State} {e : Event}
  {tr tr' : List (Trace.Step State Event)} {r : Rule} {c : Execution}

/-- Only a definition changes the registry. -/
theorem step_registry (h : Step keccak256 s e s') : s'.registry = s.registry ∨
    ∃ rules, Registry.defineConstitution keccak256 s.registry rules = .ok s'.registry := by
  obtain ⟨m, call⟩ := e
  simp only [Step, Constitution.step] at h
  cases call
  case defineConstitution rules =>
    obtain ⟨registry, hdefine, rfl⟩ := Option.map_eq_some_iff.mp h
    exact .inr ⟨rules, toOption_eq_some.mp hdefine⟩
  all_goals
    obtain ⟨_, -, rfl⟩ := Option.map_eq_some_iff.mp h
    exact .inl rfl

theorem exist_of_step {hash : Bytes32} (h : Step keccak256 s e s')
    (hhash : s.registry.exist hash = true) :
    s'.registry.exist hash = true ∧ s'.registry.rules hash = s.registry.rules hash := by
  obtain heq | ⟨rules, hdefine⟩ := step_registry h
  · rw [heq]
    exact ⟨hhash, rfl⟩
  · exact exist_of_defineConstitution hdefine hhash

/-- A constitution is the same list in all later states. -/
theorem exist_of_run {hash : Bytes32} (h : Run (Step keccak256) s tr s')
    (hhash : s.registry.exist hash = true) :
    s'.registry.exist hash = true ∧ s'.registry.rules hash = s.registry.rules hash :=
  h.invariant (I := fun s' => s'.registry.exist hash = true ∧
    s'.registry.rules hash = s.registry.rules hash) ⟨hhash, rfl⟩ fun s₁ _ s₂ ih hst => by
      obtain ⟨hexist, hrules⟩ := exist_of_step hst ih.1
      exact ⟨hexist, hrules.trans ih.2⟩

section Missing

variable {kind : UInt8}

theorem decoded_missing {α : Type} {x : Option α} :
    decoded x ≠ .error (.custom (.missingRequiredAdapter kind)) := by
  cases x <;> simp [decoded]

/-- The revert data of an adapter is passed on as it is. -/
theorem tryDecode_missing {adapter : Address} {innerData : Bytes} :
    tryDecode adapters adapter innerData ≠ .error (.custom (.missingRequiredAdapter kind)) := by
  unfold tryDecode
  split
  · nofun
  · split <;> nofun
  · nofun

/-- A bound on what an adapter reads; where it reads nothing there is none. -/
theorem bound_missing {n : ℕ} {params : Bytes} {msg : String} :
    (if n = 0 then pure () else do
      let max ← decoded (decodeUint params)
      require (n ≤ max) msg : Tx Error Unit) ≠ .error (.custom (.missingRequiredAdapter kind)) := by
  split
  · intro h
    cases h
  · simp [bind_error, require_error, decoded_missing]

theorem checkMaxLeverage_missing {innerData : Bytes} :
    Executor.checkMaxLeverage adapters r innerData ≠
      .error (.custom (.missingRequiredAdapter kind)) := by
  intro herror
  rw [Executor.checkMaxLeverage, checkMaxLeverage, bind_error] at herror
  obtain h | ⟨dec, -, h⟩ := herror
  · exact tryDecode_missing h
  · exact bound_missing h

theorem checkSubdelegationBound_missing {innerData : Bytes} :
    Executor.checkSubdelegationBound adapters r innerData ≠
      .error (.custom (.missingRequiredAdapter kind)) := by
  intro herror
  rw [Executor.checkSubdelegationBound, checkSubdelegationBound, bind_error] at herror
  obtain h | ⟨dec, -, h⟩ := herror
  · exact tryDecode_missing h
  · exact bound_missing h

/-- A rule that has its adapter is not refused for the lack of one. -/
theorem enforce_missing (h : r.Adapted) :
    Validator.enforce adapters r c ≠ .error (.custom (.missingRequiredAdapter kind)) := by
  rw [validator_enforce h]
  intro herror
  simp only [Executor.enforce, Executor.checkMaxTradeSize, Executor.checkVenueBlacklist,
    Executor.checkUnauditedContracts, checkVenueBlacklist, checkUnauditedContracts,
    checkAdapterSize, Executor.checkTransfer, Executor.tryDecode] at herror
  split_ifs at herror <;>
    simp [bind_error, require_error, decoded_missing, tryDecode_missing, pure_error,
      checkMaxLeverage_missing, checkSubdelegationBound_missing] at herror

theorem decodeCall_missing {callData : Bytes} :
    Validator.decodeCall callData ≠ .error (.custom (.missingRequiredAdapter kind)) := by
  intro herror
  simp [Validator.decodeCall, bind_error, revertIf_error, decoded_missing] at herror

theorem validateUserOp_missing {m : Msg} {account : Address} {callData : Bytes}
    (hs : WellFormed keccak256 s) :
    Validator.validateUserOp adapters s.registry s.validator m account callData ≠
      .error (.custom (.missingRequiredAdapter kind)) := by
  intro herror
  simp only [Validator.validateUserOp, bind_error, revertIf_error, require_error, external_ok,
    getConstitution_ok] at herror
  obtain ⟨-, h⟩ | ⟨-, -, ⟨-, h⟩ | ⟨-, -, h | ⟨rules, ⟨hexist, rfl⟩, h | ⟨c, -, h⟩⟩⟩⟩ := herror
  · cases h
  · cases h
  · cases external_error h
  · exact decodeCall_missing h
  · obtain ⟨r, hr, hrule⟩ := forM_error h
    exact enforce_missing ((hs.sound.accepted _ hexist).adapted r hr) hrule

end Missing

/-- The registry of a reachable state is addressed by content: what it holds under a hash is not
empty, hashes to it, has the adapters that it needs, and stays. So no user operation finds its
constitution unknown or a rule without its adapter. -/
theorem content_addressed (h : Run (Step keccak256) .initial tr s)
    (h' : Run (Step keccak256) s tr' s') :
    (∀ hash, s.registry.exist hash = true →
      s.registry.rules hash ≠ [] ∧ Registry.hashOf keccak256 (s.registry.rules hash) = hash ∧
      (∀ r ∈ s.registry.rules hash, r.kind = 0 ∨ r.kind = 4 → r.adapter ≠ 0) ∧
      s'.registry.exist hash = true ∧ s'.registry.rules hash = s.registry.rules hash) ∧
    (∀ account, s'.validator.constitutionOf account ≠ 0 →
      ∃ rules, Registry.getConstitution s'.registry (s'.validator.constitutionOf account) =
        .ok rules) ∧
    ∀ adapters m account callData kind,
      Validator.validateUserOp adapters s'.registry s'.validator m account callData ≠
        .error (.custom (.missingRequiredAdapter kind)) := by
  have hs := wellFormed h
  have hs' := wellFormed (h.append h')
  refine ⟨fun hash hexist => ?_, fun account hne => ?_, fun _ _ _ _ _ => validateUserOp_missing hs'⟩
  · have haccepted := hs.sound.accepted hash hexist
    exact ⟨haccepted.ne_nil, hs.sound.hashOf hash hexist, haccepted.adapted,
      exist_of_run h' hexist⟩
  · exact ⟨_, getConstitution_ok.mpr ⟨hs'.validator account hne, rfl⟩⟩

end Content

namespace Demo

/-- The constitution of the account, with the account as it is and later. -/
theorem rules_addressed : Registry.hashOf Registry.keccak (state.registry.rules hash) = hash ∧
    ∃ rules, Registry.getConstitution state.registry (state.validator.constitutionOf 0xacc) =
      .ok rules := by
  obtain ⟨tr, h⟩ := run_installed _ accepted self
  have hinstalled : Installed state 0xacc hash := installed_installed hash_ne_zero
  have hexist : state.registry.exist hash = true := hinstalled.exist (wellFormed h)
  obtain ⟨hcontent, hknown, -⟩ := content_addressed h .nil
  have hne : state.validator.constitutionOf 0xacc ≠ 0 := by
    rw [hinstalled.validator]
    exact hash_ne_zero
  exact ⟨(hcontent hash hexist).2.1, hknown 0xacc hne⟩

end Demo

end Constitution
end Arcane
