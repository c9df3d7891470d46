import Arcane.Arena.Arena

/-!
# What every run of the arena keeps

A relation between worlds that is reflexive and transitive, and that each call outside keeps to,
holds between the worlds before and after any part of a run, whether it returns or raises.
-/

namespace Arcane
namespace Arena

open Py

structure Keeps {D W : Type} (R : W → W → Prop) (S : ArenaSeams D W) : Prop where
  refl : ∀ w, R w w
  trans : ∀ w₁ w₂ w₃, R w₁ w₂ → R w₂ w₃ → R w₁ w₃
  send : ∀ call, Within R (S.send call)
  decide : ∀ agent symbol brief text, Within R (S.decide agent symbol brief text)
  remember : ∀ agent cycle reasoning direction rBps,
    Within R (S.remember agent cycle reasoning direction rBps)
  memoryRoot : ∀ agent, Within R (S.memoryRoot agent)
  realMove : ∀ cycle, Within R (S.realMove cycle)
  anchor : ∀ anchor ∈ S.anchor, ∀ agent root, Within R (anchor agent root)
  pollInjections : ∀ pollInjections ∈ S.pollInjections, ∀ duelId fromBlock,
    Within R (pollInjections duelId fromBlock)
  monotonic : Within R S.monotonic
  sleep : ∀ secs, Within R (S.sleep secs)

namespace Keeps

variable {D W : Type} {R : W → W → Prop} {S : ArenaSeams D W} {config : DuelConfig D} {c : Config}
  {agent a b : D} {duelId : ℕ}

theorem pure (h : Keeps R S) {α : Type} (x : α) : Within R (Pure.pure x : Py W α) :=
  within_pure h.refl x

theorem raise (h : Keeps R S) {α : Type} : Within R (Py.raise : Py W α) := within_raise h.refl

theorem bind (h : Keeps R S) {α β : Type} {x : Py W α} {f : α → Py W β} (hx : Within R x)
    (hf : ∀ a, Within R (f a)) : Within R (x >>= f) := hx.bind h.trans hf

theorem create (h : Keeps R S) : Within R (create S.toSeams config) := by
  refine h.bind (h.send _) fun receipt => ?_
  split
  · exact h.raise
  · split
    · exact h.raise
    · exact h.pure _

theorem decideWithRetry (h : Keeps R S) {brief : String} {text : Option String} :
    Within R (decideWithRetry S.toSeams config agent brief text) := by
  refine h.bind (h.decide _ _ _ _).attempt fun o => ?_
  cases o with
  | none => exact h.decide _ _ _ _
  | some dec => exact h.pure _

theorem answer (h : Keeps R S) {brief : String} {inj : Option Injection} :
    Within R (answer S.toSeams config agent brief inj) := by
  cases inj with
  | none => exact h.bind h.decideWithRetry fun _ => h.pure _
  | some inj => exact h.bind h.decideWithRetry fun _ => h.bind h.decideWithRetry fun _ => h.pure _

theorem reportAgent (h : Keeps R S) {cycle : ℕ} {realMove : ℤ} {brief : String}
    {injections : Injections} :
    Within R (reportAgent S.toSeams config duelId cycle realMove brief injections agent) := by
  refine h.bind h.answer.attempt fun answered => h.bind (h.send _) fun receipt => ?_
  split
  · exact h.raise
  · exact h.bind (h.send _) fun _ => h.bind (h.remember _ _ _ _ _) fun _ => h.pure _

theorem anchorRoots (h : Keeps R S) {cycle : ℕ} :
    Within R (anchorRoots S.toSeams config cycle) := by
  unfold Arena.anchorRoots
  split
  · exact h.pure _
  · next anchor hanchor =>
    have hroot (agent : D) : Within R (anchorRoot S.toSeams anchor agent) := by
      refine h.bind (h.memoryRoot _) fun root => ?_
      split
      · exact h.pure _
      · exact h.anchor anchor hanchor _ _
    split
    · exact h.bind (hroot _) fun _ => hroot _
    · exact h.pure _

theorem runCycle (h : Keeps R S) {cycle : ℕ} {injections : Injections} :
    Within R (runCycle S.toSeams config duelId cycle injections) :=
  h.bind (h.realMove _) fun _ => h.bind h.reportAgent fun _ => h.bind h.reportAgent fun _ =>
    h.bind h.anchorRoots fun _ => h.pure _

theorem resolve (h : Keeps R S) : Within R (resolve S.toSeams duelId) := by
  refine h.bind (h.send _) fun receipt => ?_
  split
  · exact h.raise
  · exact h.pure _

theorem poll (h : Keeps R S) {staticInj : Injections} {fb : ℕ} :
    Within R (poll S staticInj duelId fb) := by
  unfold Arena.poll
  split
  · exact h.pure _
  · next pollInjections hpoll =>
    refine h.bind (h.pollInjections pollInjections hpoll _ _).attempt fun o => ?_
    cases o with
    | none => exact h.pure _
    | some polled => exact h.pure _

theorem cycleStep (h : Keeps R S) {staticInj : Injections} {step fromBlock extra : ℕ} :
    Within R (cycleStep S c config duelId staticInj step fromBlock extra) := by
  refine h.bind h.poll fun polled => ?_
  dsimp only
  split
  · exact h.bind h.runCycle fun _ => h.pure _
  · split
    · exact h.pure _
    · exact h.bind h.runCycle fun _ => h.pure _

theorem pause (h : Keeps R S) {step : ℕ} : Within R (pause S c step) := by
  unfold Arena.pause
  split
  · exact h.sleep _
  · exact h.pure _

theorem settle (h : Keeps R S) {createdAt : ℚ} : Within R (settle S c createdAt) := by
  refine h.bind h.monotonic fun now => ?_
  dsimp only
  split
  · exact h.sleep _
  · exact h.pure _

theorem steps (h : Keeps R S) {staticInj : Injections} {createdAt : ℚ}
    {n step fromBlock extra : ℕ} :
    Within R (steps S c config duelId staticInj createdAt n step fromBlock extra) := by
  induction n generalizing step fromBlock extra with
  | zero => exact h.bind h.settle.attempt fun _ => h.pure _
  | succ n ih =>
    refine h.bind h.cycleStep.attempt fun o => ?_
    cases o with
    | none => exact h.pure _
    | some x =>
      refine h.bind h.pause.attempt fun o => ?_
      cases o with
      | none => exact h.pure _
      | some u => exact h.bind ih fun _ => h.pure _

theorem runDuel (h : Keeps R S) {staticInj : Injections} : Within R (runDuel S c staticInj a b) :=
  h.bind h.create fun _ => h.bind h.monotonic fun _ => h.bind h.steps fun _ =>
    h.bind h.resolve.attempt fun _ => h.pure _

theorem runDuels (h : Keeps R S) {ps : List (D × D)} {injectionsPerDuel : List Injections} :
    Within R (runDuels S c ps injectionsPerDuel) := by
  induction ps generalizing injectionsPerDuel with
  | nil => exact h.pure _
  | cons p ps ih => exact h.bind h.runDuel fun _ => h.bind ih fun _ => h.pure _

theorem run (h : Keeps R S) {duelists : List D} {injectionsPerDuel : List Injections} :
    Within R (run S c duelists injectionsPerDuel) := h.bind h.runDuels fun _ => h.pure _

end Keeps

end Arena
end Arcane
