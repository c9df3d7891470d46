import Arcane.Constitution.Executor
import Arcane.Constitution.Hook
import Arcane.Constitution.Validator
import Arcane.Lib.Machine

/-!
# The registry and the three modules

The external functions that change what is stored, as one state machine.

* `wellFormed`: the registry holds constitutions that it accepts, and what a module has installed
  is one of them.
-/

namespace Arcane
namespace Constitution

open Text Evm Abi Trace

structure State where
  registry : Registry.State
  validator : Validator.State
  hook : Hook.State
  executor : Executor.State

def State.initial : State := ⟨.initial, .initial, .initial, .initial⟩

inductive Call where
  | defineConstitution (rules : List Rule)
  | installValidator (data : Bytes)
  | uninstallValidator
  | installHook (data : Bytes)
  | uninstallHook
  | installExecutor (data : Bytes)
  | uninstallExecutor

structure Event where
  msg : Msg
  call : Call

/-- What a call does, unless it reverts. -/
def step (keccak256 : Bytes → Bytes32) (s : State) (e : Event) : Option State :=
  match e.call with
  | .defineConstitution rules =>
    (Registry.defineConstitution keccak256 s.registry rules).toOption.map ({ s with registry := · })
  | .installValidator data =>
    (Validator.onInstall s.registry s.validator e.msg data).toOption.map ({ s with validator := · })
  | .uninstallValidator =>
    (Validator.onUninstall s.validator e.msg).toOption.map ({ s with validator := · })
  | .installHook data =>
    (Hook.onInstall s.registry s.hook e.msg data).toOption.map ({ s with hook := · })
  | .uninstallHook => (Hook.onUninstall s.hook e.msg).toOption.map ({ s with hook := · })
  | .installExecutor data =>
    (Executor.onInstall s.registry s.executor e.msg data).toOption.map ({ s with executor := · })
  | .uninstallExecutor =>
    (Executor.onUninstall s.executor e.msg).toOption.map ({ s with executor := · })

def Step (keccak256 : Bytes → Bytes32) (s : State) (e : Event) (s' : State) : Prop :=
  step keccak256 s e = some s'

/-- The rule has the adapter that its kind needs. -/
def Rule.Adapted (r : Rule) : Prop := r.kind = 0 ∨ r.kind = 4 → r.adapter ≠ 0

/-- A constitution that the registry accepts. -/
structure Accepted (rules : List Rule) : Prop where
  ne_nil : rules ≠ []
  adapted : ∀ r ∈ rules, r.Adapted

variable {keccak256 : Bytes → Bytes32} {s s' : State} {e : Event}
  {tr : List (Trace.Step State Event)}

theorem checkRule_ok {r : Rule} {u : Unit} : Registry.checkRule r = .ok u ↔ r.Adapted := by
  rw [Registry.checkRule, revertIf_ok, Registry.adapterRequired, Rule.Adapted]
  simp

theorem foldl_push (stored rules : List Rule) :
    rules.foldl Registry.push stored = stored ++ rules := by
  induction rules generalizing stored with
  | nil => rw [List.foldl_nil, List.append_nil]
  | cons r rules ih =>
    rw [List.foldl_cons, ih, Registry.push, List.append_assoc, List.singleton_append]

theorem defineConstitution_ok {registry registry' : Registry.State} {rules : List Rule} :
    Registry.defineConstitution keccak256 registry rules = .ok registry' ↔
      Accepted rules ∧ registry' =
        if registry.exist (Registry.hashOf keccak256 rules) then registry
        else ⟨Function.update registry.rules (Registry.hashOf keccak256 rules)
            (registry.rules (Registry.hashOf keccak256 rules) ++ rules),
          Function.update registry.exist (Registry.hashOf keccak256 rules) true⟩ := by
  simp only [Registry.defineConstitution, bind_ok, revertIf_ok, forM_ok, checkRule_ok, pure_ok,
    foldl_push]
  constructor
  · rintro ⟨_, hne, _, hadapted, rfl⟩
    exact ⟨⟨hne, hadapted⟩, rfl⟩
  · rintro ⟨⟨hne, hadapted⟩, rfl⟩
    exact ⟨(), hne, (), hadapted, rfl⟩

theorem getConstitution_ok {registry : Registry.State} {hash : Bytes32} {rules : List Rule} :
    Registry.getConstitution registry hash = .ok rules ↔
      registry.exist hash = true ∧ registry.rules hash = rules := by
  rw [Registry.getConstitution, bind_ok]
  simp

/-- What the registry holds, it has accepted, and has under its hash. -/
structure Sound (keccak256 : Bytes → Bytes32) (registry : Registry.State) : Prop where
  accepted : ∀ hash, registry.exist hash = true → Accepted (registry.rules hash)
  hashOf : ∀ hash, registry.exist hash = true →
    Registry.hashOf keccak256 (registry.rules hash) = hash
  /-- Nothing stands where no constitution is. -/
  eq_nil : ∀ hash, registry.exist hash = false → registry.rules hash = []

/-- The hashes that a module has installed are defined. -/
def Defined (registry : Registry.State) (constitutionOf : Address → Bytes32) : Prop :=
  ∀ a, constitutionOf a ≠ 0 → registry.exist (constitutionOf a) = true

theorem Defined.update {registry : Registry.State} {constitutionOf : Address → Bytes32}
    (h : Defined registry constitutionOf) (a : Address) {hash : Bytes32}
    (hhash : hash ≠ 0 → registry.exist hash = true) :
    Defined registry (Function.update constitutionOf a hash) := by
  intro b hb
  by_cases hba : b = a
  · subst hba
    rw [Function.update_self] at hb ⊢
    exact hhash hb
  · rw [Function.update_of_ne hba] at hb ⊢
    exact h b hb

/-- What holds in every state. -/
structure WellFormed (keccak256 : Bytes → Bytes32) (s : State) : Prop where
  sound : Sound keccak256 s.registry
  validator : Defined s.registry s.validator.constitutionOf
  hook : Defined s.registry s.hook.constitutionOf
  executor : Defined s.registry s.executor.constitutionOf

theorem wellFormed_initial : WellFormed keccak256 .initial where
  sound := ⟨fun _ h => (nomatch h), fun _ h => (nomatch h), fun _ _ => rfl⟩
  validator _ h := absurd rfl h
  hook _ h := absurd rfl h
  executor _ h := absurd rfl h

section Define

variable {registry registry' : Registry.State} {rules : List Rule} {hash : Bytes32}

/-- What is defined stays as it is. -/
theorem exist_of_defineConstitution
    (h : Registry.defineConstitution keccak256 registry rules = .ok registry')
    (hhash : registry.exist hash = true) :
    registry'.exist hash = true ∧ registry'.rules hash = registry.rules hash := by
  obtain ⟨-, rfl⟩ := defineConstitution_ok.mp h
  split
  · exact ⟨hhash, rfl⟩
  · next hnew =>
    have hne : hash ≠ Registry.hashOf keccak256 rules := fun heq => hnew (heq ▸ hhash)
    exact ⟨(Function.update_of_ne hne _ _).trans hhash, Function.update_of_ne hne _ _⟩

theorem sound_of_defineConstitution
    (h : Registry.defineConstitution keccak256 registry rules = .ok registry')
    (hsound : Sound keccak256 registry) : Sound keccak256 registry' := by
  obtain ⟨haccepted, rfl⟩ := defineConstitution_ok.mp h
  split
  · exact hsound
  · next hnew =>
    have hnil := hsound.eq_nil _ (Bool.not_eq_true _ ▸ hnew)
    rw [hnil, List.nil_append]
    refine ⟨fun hash hhash => ?_, fun hash hhash => ?_, fun hash hhash => ?_⟩ <;>
      by_cases heq : hash = Registry.hashOf keccak256 rules
    · simpa only [heq, Function.update_self] using haccepted
    · simp only [Function.update_of_ne heq] at hhash ⊢
      exact hsound.accepted hash hhash
    · simp only [heq, Function.update_self]
    · simp only [Function.update_of_ne heq] at hhash ⊢
      exact hsound.hashOf hash hhash
    · simp [heq] at hhash
    · simp only [Function.update_of_ne heq] at hhash ⊢
      exact hsound.eq_nil hash hhash

end Define

/-- A module installs what is defined. -/
theorem validator_onInstall_ok {registry : Registry.State} {v v' : Validator.State} {m : Msg}
    {data : Bytes} (h : Validator.onInstall registry v m data = .ok v') :
    ∃ hash, registry.exist hash = true ∧
      v'.constitutionOf = Function.update v.constitutionOf m.sender hash := by
  simp only [Validator.onInstall, bind_ok, revertIf_ok, pure_ok, Prod.exists] at h
  obtain ⟨hash, ep, -, -, hexist, -, -, rfl⟩ := h
  exact ⟨hash, by simpa using hexist, rfl⟩

theorem hook_onInstall_ok {registry : Registry.State} {k k' : Hook.State} {m : Msg}
    {data : Bytes} (h : Hook.onInstall registry k m data = .ok k') :
    ∃ hash, registry.exist hash = true ∧
      k'.constitutionOf = Function.update k.constitutionOf m.sender hash := by
  simp only [Hook.onInstall, bind_ok, revertIf_ok, pure_ok] at h
  obtain ⟨-, -, hash, -, -, hexist, -, -, rfl⟩ := h
  exact ⟨hash, by simpa using hexist, rfl⟩

theorem executor_onInstall_ok {registry : Registry.State} {x x' : Executor.State} {m : Msg}
    {data : Bytes} (h : Executor.onInstall registry x m data = .ok x') :
    ∃ hash, registry.exist hash = true ∧
      x'.constitutionOf = Function.update x.constitutionOf m.sender hash := by
  simp only [Executor.onInstall, bind_ok, revertIf_ok, pure_ok] at h
  obtain ⟨-, -, hash, -, -, hexist, -, -, rfl⟩ := h
  exact ⟨hash, by simpa using hexist, rfl⟩

theorem WellFormed.step (hs : WellFormed keccak256 s) (h : Step keccak256 s e s') :
    WellFormed keccak256 s' := by
  obtain ⟨hsound, hvalidator, hhook, hexecutor⟩ := hs
  obtain ⟨m, call⟩ := e
  simp only [Step, Constitution.step] at h
  cases call with
  | defineConstitution rules =>
    obtain ⟨registry, hdefine, rfl⟩ := Option.map_eq_some_iff.mp h
    rw [toOption_eq_some] at hdefine
    exact ⟨sound_of_defineConstitution hdefine hsound,
      fun a ha => (exist_of_defineConstitution hdefine (hvalidator a ha)).1,
      fun a ha => (exist_of_defineConstitution hdefine (hhook a ha)).1,
      fun a ha => (exist_of_defineConstitution hdefine (hexecutor a ha)).1⟩
  | installValidator data =>
    obtain ⟨v, hinstall, rfl⟩ := Option.map_eq_some_iff.mp h
    obtain ⟨hash, hexist, hv⟩ := validator_onInstall_ok (toOption_eq_some.mp hinstall)
    exact ⟨hsound, hv ▸ hvalidator.update _ fun _ => hexist, hhook, hexecutor⟩
  | uninstallValidator =>
    obtain ⟨v, huninstall, rfl⟩ := Option.map_eq_some_iff.mp h
    simp only [toOption_eq_some, Validator.onUninstall, bind_ok, revertIf_ok, pure_ok] at huninstall
    obtain ⟨-, -, rfl⟩ := huninstall
    exact ⟨hsound, hvalidator.update _ fun hne => absurd rfl hne, hhook, hexecutor⟩
  | installHook data =>
    obtain ⟨k, hinstall, rfl⟩ := Option.map_eq_some_iff.mp h
    obtain ⟨hash, hexist, hk⟩ := hook_onInstall_ok (toOption_eq_some.mp hinstall)
    exact ⟨hsound, hvalidator, hk ▸ hhook.update _ fun _ => hexist, hexecutor⟩
  | uninstallHook =>
    obtain ⟨k, huninstall, rfl⟩ := Option.map_eq_some_iff.mp h
    simp only [toOption_eq_some, Hook.onUninstall, bind_ok, revertIf_ok, pure_ok] at huninstall
    obtain ⟨-, -, rfl⟩ := huninstall
    exact ⟨hsound, hvalidator, hhook.update _ fun hne => absurd rfl hne, hexecutor⟩
  | installExecutor data =>
    obtain ⟨x, hinstall, rfl⟩ := Option.map_eq_some_iff.mp h
    obtain ⟨hash, hexist, hx⟩ := executor_onInstall_ok (toOption_eq_some.mp hinstall)
    exact ⟨hsound, hvalidator, hhook, hx ▸ hexecutor.update _ fun _ => hexist⟩
  | uninstallExecutor =>
    obtain ⟨x, huninstall, rfl⟩ := Option.map_eq_some_iff.mp h
    simp only [toOption_eq_some, Executor.onUninstall, bind_ok, revertIf_ok, pure_ok] at huninstall
    obtain ⟨-, -, rfl⟩ := huninstall
    exact ⟨hsound, hvalidator, hhook, hexecutor.update _ fun hne => absurd rfl hne⟩

theorem wellFormed (h : Run (Step keccak256) .initial tr s) : WellFormed keccak256 s :=
  h.invariant wellFormed_initial fun _ _ _ hs hst => hs.step hst

/-- The account has the constitution in all three modules. -/
structure Installed (s : State) (account : Address) (hash : Bytes32) : Prop where
  validator : s.validator.constitutionOf account = hash
  hook : s.hook.constitutionOf account = hash
  executor : s.executor.constitutionOf account = hash
  ne_zero : hash ≠ 0

theorem Installed.exist {account : Address} {hash : Bytes32} (h : Installed s account hash)
    (hs : WellFormed keccak256 s) : s.registry.exist hash = true := by
  have hexist := hs.hook account
  rw [h.hook] at hexist
  exact hexist h.ne_zero

section Install

variable {rules : List Rule} {registry : Registry.State} {m : Msg} {hash : Bytes32}

theorem validator_onInstall (hexist : registry.exist hash = true) {v : Validator.State}
    (hnone : v.constitutionOf m.sender = 0) :
    Validator.onInstall registry v m (bytes32 hash) = .ok
      ⟨Function.update v.constitutionOf m.sender hash,
        Function.update v.entryPointOf m.sender Validator.defaultEntryPoint⟩ := by
  have hdata : Validator.installData (bytes32 hash) = .ok (hash, Validator.defaultEntryPoint) := by
    simp only [Validator.installData, length_bytes32, if_true, bytes32At_bytes32_end]
    rfl
  simp only [Validator.onInstall, hdata, ok_bind, bind_ok, revertIf_ok, pure_ok]
  exact ⟨(), by simp [hexist], (), not_not.mpr hnone, trivial⟩

theorem hook_onInstall (hexist : registry.exist hash = true) {k : Hook.State}
    (hnone : k.constitutionOf m.sender = 0) :
    Hook.onInstall registry k m (bytes32 hash) =
      .ok ⟨Function.update k.constitutionOf m.sender hash⟩ := by
  simp only [Hook.onInstall, bytes32At_bytes32_end, bind_ok, revertIf_ok, pure_ok]
  exact ⟨(), not_not.mpr (length_bytes32 hash), hash, rfl, (), by simp [hexist], (),
    not_not.mpr hnone, rfl⟩

theorem executor_onInstall (hexist : registry.exist hash = true) {x : Executor.State}
    (hnone : x.constitutionOf m.sender = 0) :
    Executor.onInstall registry x m (bytes32 hash) =
      .ok ⟨Function.update x.constitutionOf m.sender hash⟩ := by
  simp only [Executor.onInstall, bytes32At_bytes32_end, bind_ok, revertIf_ok, pure_ok]
  exact ⟨(), not_not.mpr (length_bytes32 hash), hash, rfl, (), by simp [hexist], (),
    not_not.mpr hnone, rfl⟩

/-- The registry with one constitution. -/
def holding (keccak256 : Bytes → Bytes32) (rules : List Rule) : Registry.State where
  rules := Function.update (fun _ => []) (Registry.hashOf keccak256 rules) rules
  exist := Function.update (fun _ => false) (Registry.hashOf keccak256 rules) true

/-- The account has installed that constitution in the three modules. -/
def installed (keccak256 : Bytes → Bytes32) (rules : List Rule) (account : Address) : State where
  registry := holding keccak256 rules
  validator := ⟨Function.update (fun _ => 0) account (Registry.hashOf keccak256 rules),
    Function.update (fun _ => 0) account Validator.defaultEntryPoint⟩
  hook := ⟨Function.update (fun _ => 0) account (Registry.hashOf keccak256 rules)⟩
  executor := ⟨Function.update (fun _ => 0) account (Registry.hashOf keccak256 rules)⟩

theorem rules_holding :
    (holding keccak256 rules).rules (Registry.hashOf keccak256 rules) = rules := by
  simp [holding]

theorem exist_holding :
    (holding keccak256 rules).exist (Registry.hashOf keccak256 rules) = true := by
  simp [holding]

theorem installed_installed {account : Address} (hne : Registry.hashOf keccak256 rules ≠ 0) :
    Installed (installed keccak256 rules account) account (Registry.hashOf keccak256 rules) := by
  refine ⟨?_, ?_, ?_, hne⟩ <;> simp [installed]

/-- Every constitution that the registry accepts can be installed. -/
theorem run_installed (keccak256 : Bytes → Bytes32) (h : Accepted rules) (m : Msg) :
    ∃ tr, Run (Step keccak256) .initial tr (installed keccak256 rules m.sender) := by
  let data := bytes32 (Registry.hashOf keccak256 rules)
  let s₁ : State := { State.initial with registry := holding keccak256 rules }
  let s₂ : State := { s₁ with validator := (installed keccak256 rules m.sender).validator }
  let s₃ : State := { s₂ with hook := (installed keccak256 rules m.sender).hook }
  have hexist : (holding keccak256 rules).exist (Registry.hashOf keccak256 rules) = true :=
    exist_holding
  have h₁ : Step keccak256 .initial ⟨m, .defineConstitution rules⟩ s₁ := by
    have hdefine : Registry.defineConstitution keccak256 .initial rules =
        .ok (holding keccak256 rules) := by
      rw [defineConstitution_ok]
      exact ⟨h, rfl⟩
    simp only [Step, Constitution.step, State.initial, hdefine]
    rfl
  have h₂ : Step keccak256 s₁ ⟨m, .installValidator data⟩ s₂ := by
    have hinstall : Validator.onInstall s₁.registry s₁.validator m data = .ok s₂.validator :=
      validator_onInstall hexist rfl
    simp only [Step, Constitution.step, hinstall]
    rfl
  have h₃ : Step keccak256 s₂ ⟨m, .installHook data⟩ s₃ := by
    have hinstall : Hook.onInstall s₂.registry s₂.hook m data = .ok s₃.hook :=
      hook_onInstall hexist rfl
    simp only [Step, Constitution.step, hinstall]
    rfl
  have h₄ : Step keccak256 s₃ ⟨m, .installExecutor data⟩ (installed keccak256 rules m.sender) := by
    have hinstall : Executor.onInstall s₃.registry s₃.executor m data =
      .ok (installed keccak256 rules m.sender).executor := executor_onInstall hexist rfl
    simp only [Step, Constitution.step, hinstall]
    rfl
  exact ⟨_, (((Run.nil.snoc _ h₁).snoc _ h₂).snoc _ h₃).snoc _ h₄⟩

end Install

end Constitution
end Arcane
