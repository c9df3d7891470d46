import Arcane.BondVault.Defs

/-!
# What one call does to the vault

`Effect C s e s'` lists what an accepted call can do: the guards that passed, the movement of the
bond token and the storage written. `Step.effect` derives it from the code once, and the
invariants are proved by cases on it.
-/

namespace Arcane
namespace BondVault

open Evm

/-- An owner's call. -/
def Call.admin : Call → Bool
  | .transferOwnership _ | .renounceOwnership | .setOracle _ | .setActivityChecker _
  | .setReleaseWindow _ | .setLivenessTimeout _ | .pause | .unpause => true
  | _ => false

/-- The agent may release: the window since its latest post has elapsed, or the oracle approved. -/
def State.MayRelease (s : State) (m : Msg) (a : Address) : Prop :=
  (s.bonds a).postedAt + s.releaseWindow ≤ m.timestamp ∨ (s.bonds a).oracleApprovedRelease = true

/-- The agent's liveness deadline has passed. -/
def State.Dead (s : State) (m : Msg) (a : Address) : Prop :=
  (s.bonds a).lastActivityAt + s.livenessTimeout ≤ m.timestamp

/-- The bond of `a` after it posted `amount`. -/
def Bond.posted (b : Bond) (m : Msg) (amount signal : ℕ) : Bond :=
  ⟨b.balance + amount, m.timestamp, m.timestamp, signal, false, m.sender⟩

/-- The checker says that the agent is alive. -/
def Event.Alive (s : State) (e : Event) (a : Address) : Prop :=
  e.checker.isAlive a (s.bonds a).lastActivitySignal
    (e.msg.timestamp - (s.bonds a).lastActivityAt) = some true

inductive Effect (C : Config) (s : State) (e : Event) : State → Prop
  | post (amount signal : ℕ) (bondToken : Token) :
      e.call = .post amount →
      Token.Moved s.bondToken bondToken e.msg.sender C.self amount →
      Effect C s e { s with
        bondToken
        bonds := Function.update s.bonds e.msg.sender
          ((s.bonds e.msg.sender).posted e.msg amount signal) }
  | release (bondToken : Token) :
      e.call = .release →
      (s.bonds e.msg.sender).balance ≠ 0 →
      s.MayRelease e.msg e.msg.sender →
      Token.Moved s.bondToken bondToken C.self e.msg.sender (s.bonds e.msg.sender).balance →
      Effect C s e { s with
        bondToken
        bonds := Function.update s.bonds e.msg.sender
          { s.bonds e.msg.sender with balance := 0, oracleApprovedRelease := false } }
  | postCounterBond (amount : ℕ) (bondToken : Token) :
      e.call = .postCounterBond amount →
      Token.Moved s.bondToken bondToken e.msg.sender C.self amount →
      Effect C s e { s with
        bondToken
        counterBonds := Function.update s.counterBonds e.msg.sender
          (s.counterBonds e.msg.sender + amount) }
  | withdrawCounterBond (amount : ℕ) (bondToken : Token) :
      e.call = .withdrawCounterBond amount →
      amount ≤ s.counterBonds e.msg.sender →
      Token.Moved s.bondToken bondToken C.self e.msg.sender amount →
      Effect C s e { s with
        bondToken
        counterBonds := Function.update s.counterBonds e.msg.sender
          (s.counterBonds e.msg.sender - amount) }
  | slash (agent : Address) (amount : ℕ) (between bondToken : Token) :
      e.call = .slash agent amount →
      e.msg.sender = s.oracle →
      amount ≤ (s.bonds agent).balance →
      amount ≤ s.counterBonds e.msg.sender →
      Token.Moved s.bondToken between C.self burnAddress amount →
      Token.Moved between bondToken C.self burnAddress amount →
      Effect C s e { s with
        bondToken
        bonds := Function.update s.bonds agent
          { s.bonds agent with balance := (s.bonds agent).balance - amount }
        counterBonds := Function.update s.counterBonds e.msg.sender
          (s.counterBonds e.msg.sender - amount) }
  | approveRelease (agent : Address) :
      e.call = .approveRelease agent →
      e.msg.sender = s.oracle →
      (s.bonds agent).balance ≠ 0 →
      Effect C s e { s with
        bonds := Function.update s.bonds agent
          { s.bonds agent with oracleApprovedRelease := true } }
  | refresh (agent : Address) (signal : ℕ) :
      e.call = .pokeActivity agent →
      (s.bonds agent).balance ≠ 0 →
      e.Alive s agent →
      Effect C s e { s with
        bonds := Function.update s.bonds agent
          { s.bonds agent with
            lastActivitySignal := signal, lastActivityAt := e.msg.timestamp } }
  | noProgress (agent : Address) :
      e.call = .pokeActivity agent →
      ¬ e.Alive s agent →
      Effect C s e s
  | releaseToOperator (agent : Address) (bondToken : Token) :
      e.call = .releaseToOperator agent →
      (s.bonds agent).balance ≠ 0 →
      s.Dead e.msg agent →
      Token.Moved s.bondToken bondToken C.self (s.bonds agent).operator (s.bonds agent).balance →
      Effect C s e { s with
        bondToken
        bonds := Function.update s.bonds agent { s.bonds agent with balance := 0 } }
  | admin (owner : Address) (paused : Bool) (oracle activityChecker : Address)
      (releaseWindow livenessTimeout : ℕ) :
      e.call.admin = true →
      Effect C s e { s with
        owner, paused, oracle, activityChecker, releaseWindow, livenessTimeout }
  | token (op : Token.Op) (bondToken : Token) :
      e.call = .bondToken op →
      op.exec s.bondToken e.msg.sender = .ok bondToken →
      Effect C s e { s with bondToken }

/-! ## From the code -/

section Inversion

variable {C : Config} {s s' : State} {e : Event} {m : Msg}

@[simp] theorem onlyOwner_ok {u : Unit} : onlyOwner s m = .ok u ↔ m.sender = s.owner := by
  simp [onlyOwner]

@[simp] theorem onlyOracle_ok {u : Unit} : onlyOracle s m = .ok u ↔ m.sender = s.oracle := by
  simp [onlyOracle]

@[simp] theorem whenNotPaused_ok {u : Unit} : whenNotPaused s = .ok u ↔ s.paused = false := by
  simp [whenNotPaused]

theorem post_effect {amount : ℕ} (hc : e.call = .post amount)
    (h : post C s e.msg e.checker amount = .ok s') : Effect C s e s' := by
  simp only [post, bind_ok, whenNotPaused_ok, revertIf_ok, U256.add_ok, pure_ok] at h
  obtain ⟨_, -, _, -, bondToken, ht, _, ⟨-, rfl⟩, signal, -, rfl⟩ := h
  rw [Msg.cast_timestamp]
  exact .post amount signal bondToken hc (Token.safeTransferFrom_ok ht)

theorem release_effect (hc : e.call = .release) (h : release C s e.msg = .ok s') :
    Effect C s e s' := by
  simp only [release, bind_ok, revertIf_ok, U256.add_ok, pure_ok] at h
  obtain ⟨_, hb, _, ⟨-, rfl⟩, _, hready, bondToken, ht, rfl⟩ := h
  refine .release bondToken hc hb ?_ (Token.safeTransfer_ok ht)
  unfold State.MayRelease
  rcases Bool.eq_false_or_eq_true (s.bonds e.msg.sender).oracleApprovedRelease with ha | ha
  · exact .inr ha
  · exact .inl (Nat.le_of_not_lt fun hlt => hready ⟨hlt, ha⟩)

theorem postCounterBond_effect {amount : ℕ} (hc : e.call = .postCounterBond amount)
    (h : postCounterBond C s e.msg amount = .ok s') : Effect C s e s' := by
  simp only [postCounterBond, bind_ok, whenNotPaused_ok, revertIf_ok, U256.add_ok, pure_ok] at h
  obtain ⟨_, -, _, -, bondToken, ht, _, ⟨-, rfl⟩, rfl⟩ := h
  exact .postCounterBond amount bondToken hc (Token.safeTransferFrom_ok ht)

theorem withdrawCounterBond_effect {amount : ℕ} (hc : e.call = .withdrawCounterBond amount)
    (h : withdrawCounterBond C s e.msg amount = .ok s') : Effect C s e s' := by
  simp only [withdrawCounterBond, bind_ok, revertIf_ok, not_lt, pure_ok] at h
  obtain ⟨_, -, _, hle, bondToken, ht, rfl⟩ := h
  exact .withdrawCounterBond amount bondToken hc hle (Token.safeTransfer_ok ht)

theorem slash_effect {agent : Address} {amount : ℕ} (hc : e.call = .slash agent amount)
    (h : slash C s e.msg agent amount = .ok s') : Effect C s e s' := by
  simp only [slash, bind_ok, onlyOracle_ok, whenNotPaused_ok, revertIf_ok, not_lt, U256.mul_ok,
    pure_ok] at h
  obtain ⟨_, ho, _, -, _, -, _, hb, _, hcb, between, ht, bondToken, ht', _, -, rfl⟩ := h
  exact .slash agent amount between bondToken hc ho hb hcb (Token.safeTransfer_ok ht)
    (Token.safeTransfer_ok ht')

theorem approveRelease_effect {agent : Address} (hc : e.call = .approveRelease agent)
    (h : approveRelease s e.msg agent = .ok s') : Effect C s e s' := by
  simp only [approveRelease, bind_ok, onlyOracle_ok, whenNotPaused_ok, revertIf_ok, pure_ok] at h
  obtain ⟨_, ho, _, -, _, hb, rfl⟩ := h
  exact .approveRelease agent hc ho hb

theorem pokeActivity_effect {agent : Address} (hc : e.call = .pokeActivity agent)
    (h : pokeActivity s e.msg e.checker agent = .ok s') : Effect C s e s' := by
  simp only [pokeActivity, bind_ok, revertIf_ok, reply_ok, U256.sub_ok, pure_ok] at h
  obtain ⟨_, -, _, hb, signal, -, _, ⟨-, rfl⟩, alive, ha, rfl⟩ := h
  cases alive with
  | true =>
    simp only [Bond.refreshed, if_true, Msg.cast_timestamp]
    exact .refresh agent signal hc hb ha
  | false =>
    simp only [Bond.refreshed, Bool.false_eq_true, if_false, Function.update_eq_self]
    exact .noProgress agent hc fun hn => by
      unfold Event.Alive at hn
      rw [ha] at hn
      cases hn

theorem isAgentAlive_false {a : Address} (hb : (s.bonds a).balance ≠ 0) {alive : Bool}
    (h : isAgentAlive s m a = .ok alive) (hal : ¬ alive = true) : s.Dead m a := by
  simp only [isAgentAlive, if_neg hb, bind_ok, U256.add_ok, pure_ok] at h
  obtain ⟨_, ⟨-, rfl⟩, rfl⟩ := h
  exact Nat.le_of_not_lt fun hlt => hal (decide_eq_true hlt)

theorem releaseToOperator_effect {agent : Address} (hc : e.call = .releaseToOperator agent)
    (h : releaseToOperator C s e.msg agent = .ok s') : Effect C s e s' := by
  simp only [releaseToOperator, bind_ok, revertIf_ok, pure_ok] at h
  obtain ⟨_, hb, alive, ha, _, hal, _, -, bondToken, ht, rfl⟩ := h
  exact .releaseToOperator agent bondToken hc hb (isAgentAlive_false hb ha hal)
    (Token.safeTransfer_ok ht)

theorem admin_effect {owner : Address} {paused : Bool} {oracle activityChecker : Address}
    {releaseWindow livenessTimeout : ℕ} (hc : e.call.admin = true)
    (h : s' = { s with owner, paused, oracle, activityChecker, releaseWindow, livenessTimeout }) :
    Effect C s e s' :=
  h ▸ .admin owner paused oracle activityChecker releaseWindow livenessTimeout hc

/-- Every accepted call has one of the listed effects. -/
theorem effect_of_exec (h : exec C s e = .ok s') : Effect C s e s' := by
  obtain ⟨m, checker, call⟩ := e
  cases call with
  | post amount => exact post_effect rfl h
  | release => exact release_effect rfl h
  | postCounterBond amount => exact postCounterBond_effect rfl h
  | withdrawCounterBond amount => exact withdrawCounterBond_effect rfl h
  | slash agent amount => exact slash_effect rfl h
  | approveRelease agent => exact approveRelease_effect rfl h
  | pokeActivity agent => exact pokeActivity_effect rfl h
  | releaseToOperator agent => exact releaseToOperator_effect rfl h
  | transferOwnership | pause | unpause =>
    -- the owner's calls with a guard of their own
    simp only [exec, transferOwnership, pause, unpause, bind_ok, whenNotPaused_ok, revertIf_ok,
      pure_ok] at h
    obtain ⟨_, -, _, -, rfl⟩ := h
    exact admin_effect rfl rfl
  | renounceOwnership | setOracle | setActivityChecker | setReleaseWindow | setLivenessTimeout =>
    simp only [exec, renounceOwnership, setOracle, setActivityChecker, setReleaseWindow,
      setLivenessTimeout, bind_ok, pure_ok] at h
    obtain ⟨_, -, rfl⟩ := h
    exact admin_effect rfl rfl
  | bondToken op =>
    simp only [exec, bind_ok, external_ok, pure_ok] at h
    obtain ⟨bondToken, ht, rfl⟩ := h
    exact .token op bondToken rfl ht

theorem Step.effect (h : Step C s e s') : Effect C s e s' := effect_of_exec h.2

end Inversion

end BondVault
end Arcane
