import Arcane.Arena.Arena
import Arcane.Arena.Polling
import Mathlib.Data.List.MinMax

/-!
# The delivery of chaos injections

A run in which nothing fails, polled with `poll_injections`.

* `Smooth`: what the run relies on, in terms of what was sent and how often the height of the chain
  was read.
* `steps_returns`: in one duel, an event is reported once for each poll that reads its block.
* `delivered_iff`: an event is reported exactly once before its duel is resolved if and only if its
  block is covered by the polls of the duel.
-/

namespace Arcane
namespace Arena

open Evm

/-- The duel of a call, unless the call creates it. -/
def Sent.duelId : Sent → Option ℕ
  | .createDuel .. => none
  | .reportCall d .. => some d
  | .reportReasoning d .. => some d
  | .resolve d => some d

/-- The call reports the injection of the event on its target. -/
def Delivers (d : ℕ) (e : ChaosLog) : Sent → Prop
  | .reportCall d' agent injectionId _ _ _ _ =>
    d' = d ∧ agent = e.target ∧ injectionId = e.injectionId
  | _ => False

instance (d : ℕ) (e : ChaosLog) (call : Sent) : Decidable (Delivers d e call) := by
  unfold Delivers
  split <;> infer_instance

/-- Before the duel is resolved, the event is reported exactly once. -/
def Delivered (sent : List Sent) (d : ℕ) (e : ChaosLog) : Prop :=
  ((sent.takeWhile (· ≠ .resolve d)).countP fun call => Delivers d e call) = 1

instance (sent : List Sent) (d : ℕ) (e : ChaosLog) : Decidable (Delivered sent d e) :=
  inferInstanceAs (Decidable (_ = _))

/-- What is seen of a world: the calls sent so far, and how often the height was read. -/
structure View (W : Type) where
  sent : W → List Sent
  polls : W → ℕ

def View.At {W : Type} (V : View W) (l : List Sent) (k : ℕ) (w : W) : Prop :=
  V.sent w = l ∧ V.polls w = k

/-- The program returns, sends nothing and reads no height. -/
def View.Quiet {W α : Type} (V : View W) (x : Py W α) : Prop :=
  ∀ l k, Py.Returns (V.At l k) x fun _ => V.At l k

/-- Nothing fails, and `poll_injections` polls: reading `k` of the height gives `heads k`, and
`getLogs` gives the events of the range out of `logs`. The contract numbers duels afresh. -/
structure Smooth {D W : Type} (S : ArenaSeams D W) (rpc : Rpc W) (symbol : String) (V : View W)
    (heads : ℕ → ℕ) (logs : ℕ → List ChaosLog) : Prop where
  polling : S.pollInjections = some (pollInjections rpc symbol)
  blockNumber : ∀ l k, Py.Returns (V.At l k) rpc.blockNumber fun head w =>
    head = heads k ∧ V.At l (k + 1) w
  getLogs : ∀ d fromBlock toBlock l k, Py.Returns (V.At l k) (rpc.getLogs d fromBlock toBlock)
    fun found w => found = (logs d).filter (fun e => fromBlock ≤ e.block ∧ e.block ≤ toBlock) ∧
      V.At l k w
  createDuel : ∀ agentA agentB bettingSecs tradingSecs l k, agentA ≠ agentB → Py.Returns (V.At l k)
    (S.send (.createDuel agentA agentB bettingSecs tradingSecs)) fun r w =>
      r.status = 1 ∧ (∃ d, r.duelId = some d ∧ ∀ call ∈ l, call.duelId ≠ some d) ∧
        V.At (l ++ [.createDuel agentA agentB bettingSecs tradingSecs]) k w
  send : ∀ call l k, call.duelId ≠ none → Py.Returns (V.At l k) (S.send call) fun r w =>
    r.status = 1 ∧ V.At (l ++ [call]) k w
  decide : ∀ agent symbol brief text, V.Quiet (S.decide agent symbol brief text)
  remember : ∀ agent cycle reasoning direction rBps,
    V.Quiet (S.remember agent cycle reasoning direction rBps)
  memoryRoot : ∀ agent, V.Quiet (S.memoryRoot agent)
  realMove : ∀ cycle, V.Quiet (S.realMove cycle)
  anchor : ∀ anchor ∈ S.anchor, ∀ agent root, V.Quiet (anchor agent root)
  monotonic : V.Quiet S.monotonic
  sleep : ∀ secs, V.Quiet (S.sleep secs)

/-- The contract numbers injections from 1 on, and no two alike. -/
structure Numbered (logs : ℕ → List ChaosLog) : Prop where
  id_ne : ∀ d, ∀ e ∈ logs d, e.injectionId ≠ 0
  id_inj : ∀ d, ∀ e ∈ logs d, ∀ e' ∈ logs d, e.injectionId = e'.injectionId → e = e'

/-- The heights at the polls after `base` others. -/
def fromPoll (heads : ℕ → ℕ) (base i : ℕ) : ℕ := heads (base + i)

/-- The event is one of a duel of `a` and `b`, on one of them, and none of the `n` polls of the duel
reads it together with another on the same target. -/
structure Awaited (a b : Address) (heads : ℕ → ℕ) (n : ℕ) (events : List ChaosLog) (e : ChaosLog) :
    Prop where
  mem : e ∈ events
  target : e.target = a ∨ e.target = b
  single : ∀ i < n, ∀ e' ∈ events, e'.target = e.target → Scanned heads i e.block →
    Scanned heads i e'.block → e' = e

/-- A stretch of calls of a duel that is not resolved in it, in which the event is reported `n`
times if `H` holds. -/
structure Segment (d : ℕ) (e : ChaosLog) (H : Prop) (n : ℕ) (s : List Sent) : Prop where
  ofDuel : ∀ call ∈ s, call.duelId = some d ∧ call ≠ .resolve d
  count : H → (s.countP fun call => Delivers d e call) = n

/-- From reading `k` of the height to reading `k'`: the program returns a value in `Q`, and sends a
segment. -/
def View.Emits {W α : Type} (V : View W) (d : ℕ) (e : ChaosLog) (H : Prop) (k n k' : ℕ)
    (x : Py W α) (Q : α → Prop) : Prop :=
  ∀ l, Py.Returns (V.At l k) x fun a w => Q a ∧ ∃ s, Segment d e H n s ∧ V.At (l ++ s) k' w

section Emits

variable {W α β : Type} {V : View W} {d : ℕ} {e : ChaosLog} {H : Prop} {k k₁ k₂ n m : ℕ}
  {x : Py W α} {f : α → Py W β} {Q Q' : α → Prop} {T : β → Prop}

theorem Segment.nil : Segment d e H 0 [] := ⟨nofun, fun _ => rfl⟩

theorem Segment.append {s s' : List Sent} (h : Segment d e H n s) (h' : Segment d e H m s') :
    Segment d e H (n + m) (s ++ s') where
  ofDuel call hcall := (List.mem_append.mp hcall).elim (h.ofDuel call) (h'.ofDuel call)
  count hH := by rw [List.countP_append, h.count hH, h'.count hH]

theorem View.Emits.bind (hx : V.Emits d e H k n k₁ x Q)
    (hf : ∀ a, Q a → V.Emits d e H k₁ m k₂ (f a) T) : V.Emits d e H k (n + m) k₂ (x >>= f) T := by
  intro l
  refine (hx l).bind fun a w => ?_
  rintro ⟨hq, s, hs, hat⟩
  obtain ⟨b, w', hrun, ht, s', hs', hat'⟩ := hf a hq (l ++ s) w hat
  exact ⟨b, w', hrun, ht, s ++ s', hs.append hs', List.append_assoc .. ▸ hat'⟩

theorem View.emits_pure {a : α} (hq : Q a) : V.Emits d e H k 0 k (pure a : Py W α) Q :=
  fun l => Py.returns_pure fun _ hw => ⟨hq, [], .nil, (List.append_nil l).symm ▸ hw⟩

theorem View.Quiet.emits (h : V.Quiet x) : V.Emits d e H k 0 k x fun _ => True := fun l =>
  (h l k).mono (fun _ hw => hw) fun _ _ hw => ⟨trivial, [], .nil, (List.append_nil l).symm ▸ hw⟩

theorem View.Emits.attempt (h : V.Emits d e H k n k₁ x Q) :
    V.Emits d e H k n k₁ (Py.attempt x) fun o => ∃ a, o = some a ∧ Q a := fun l =>
  (h l).attempt.mono (fun _ hw => hw) fun _ _ ⟨a, ho, hq, hs⟩ => ⟨⟨a, ho, hq⟩, hs⟩

/-- `bind` after a program that sends nothing. -/
theorem View.Emits.bind_zero (hx : V.Emits d e H k 0 k₁ x Q)
    (hf : ∀ a, Q a → V.Emits d e H k₁ m k₂ (f a) T) : V.Emits d e H k m k₂ (x >>= f) T :=
  Nat.zero_add m ▸ hx.bind hf

/-- `bind` before a program that sends nothing. -/
theorem View.Emits.zero_bind (hx : V.Emits d e H k n k₁ x Q)
    (hf : ∀ a, Q a → V.Emits d e H k₁ 0 k₂ (f a) T) : V.Emits d e H k n k₂ (x >>= f) T :=
  hx.bind hf

theorem View.Emits.congr (h : V.Emits d e H k n k₁ x Q) (hn : H → n = m) :
    V.Emits d e H k m k₁ x Q := fun l =>
  (h l).mono (fun _ hw => hw) fun _ _ ⟨hq, s, hs, hat⟩ =>
    ⟨hq, s, ⟨hs.ofDuel, fun hH => (hs.count hH).trans (hn hH)⟩, hat⟩

theorem View.Emits.mono (h : V.Emits d e H k n k₁ x Q) (hQ : ∀ a, Q a → Q' a) :
    V.Emits d e H k n k₁ x Q' := fun l =>
  (h l).mono (fun _ hw => hw) fun _ _ ⟨hq, hs⟩ => ⟨hQ _ hq, hs⟩

end Emits

/-- An agent with this injection is reported with the event. -/
def Hit (e : ChaosLog) (inj : Option Injection) : Prop :=
  inj.elim 0 (·.injectionId) = e.injectionId

instance (e : ChaosLog) (inj : Option Injection) : Decidable (Hit e inj) :=
  inferInstanceAs (Decidable (_ = _))

/-- What `poll_injections` makes of the height `head` and the events of a duel. -/
def scan (symbol : String) (head : ℕ) (events : List ChaosLog) (fromBlock : ℕ) : Injections × ℕ :=
  if fromBlock = 0 then (∅, head)
  else if head < fromBlock then (∅, fromBlock)
  else (latest symbol (events.filter fun e => fromBlock ≤ e.block ∧ e.block ≤ head), head + 1)

namespace Smooth

variable {D W : Type} {S : ArenaSeams D W} {rpc : Rpc W} {symbol : String} {V : View W}
  {heads : ℕ → ℕ} {logs : ℕ → List ChaosLog} {config : DuelConfig D} {c : Config} {d k : ℕ}
  {e : ChaosLog} {H : Prop}

theorem emits_send (h : Smooth S rpc symbol V heads logs) (call : Sent) (hd : call.duelId = some d)
    (hne : call ≠ .resolve d) :
    V.Emits d e H k (if Delivers d e call then 1 else 0) k (S.send call) (·.status = 1) := by
  intro l
  refine (h.send call l k (by rw [hd]; simp)).mono (fun _ hw => hw) ?_
  rintro r w ⟨hstatus, hat⟩
  refine ⟨hstatus, [call], ⟨?_, fun _ => ?_⟩, hat⟩
  · intro call' hcall'
    obtain rfl := List.mem_singleton.mp hcall'
    exact ⟨hd, hne⟩
  · simp [List.countP_singleton]

theorem emits_decideWithRetry (h : Smooth S rpc symbol V heads logs) {agent : D} {brief : String}
    {text : Option String} :
    V.Emits d e H k 0 k (decideWithRetry S.toSeams config agent brief text) fun _ => True := by
  refine (h.decide _ _ _ _).emits.attempt.bind_zero fun o => ?_
  rintro ⟨dec, rfl, -⟩
  exact View.emits_pure trivial

theorem emits_answer (h : Smooth S rpc symbol V heads logs) {agent : D} {brief : String}
    {inj : Option Injection} :
    V.Emits d e H k 0 k (answer S.toSeams config agent brief inj) fun _ => True := by
  cases inj with
  | none => exact h.emits_decideWithRetry.bind_zero fun _ _ => View.emits_pure trivial
  | some inj =>
    exact h.emits_decideWithRetry.bind_zero fun _ _ => h.emits_decideWithRetry.bind_zero fun _ _ =>
      View.emits_pure trivial

theorem scored_agent {agent : Address} {cycle : ℕ} {realMove penaltyBps : ℤ} {ingested : Bool}
    {answered : Option (Decision × Bool)} :
    (scored agent cycle realMove penaltyBps ingested answered).agent = agent := by
  cases answered <;> rfl

theorem emits_reportAgent (h : Smooth S rpc symbol V heads logs) {cycle : ℕ} {realMove : ℤ}
    {brief : String} {injections : Injections} {agent : D} :
    V.Emits d e H k
      (if S.address agent = e.target ∧ Hit e (injections.get? (S.address agent)) then 1 else 0) k
      (reportAgent S.toSeams config d cycle realMove brief injections agent) fun _ => True := by
  refine h.emits_answer.attempt.bind_zero fun answered _ => ?_
  dsimp only
  generalize hr : scored (S.address agent) cycle realMove config.penaltyBps
    (injections.get? (S.address agent)).isSome answered = r
  have hagent : r.agent = S.address agent := hr ▸ scored_agent
  have hreport := (h.emits_send (e := e) (H := H) (k := k) (.reportCall d r.agent
    ((injections.get? (S.address agent)).elim 0 (·.injectionId)) r.rBps r.ingested r.survived
    r.failed) rfl (by simp)).congr fun _ => by
      simp only [Delivers, hagent, true_and]
      rfl
  have hreason := (h.emits_send (e := e) (H := H) (k := k) (.reportReasoning d r.agent cycle
    r.ingested r.survived r.reasoning) rfl (by simp)).congr fun _ => if_neg id
  refine hreport.zero_bind fun receipt hstatus => ?_
  rw [if_neg (not_not.mpr hstatus)]
  exact hreason.bind_zero fun _ _ => (h.remember _ _ _ _ _).emits.bind_zero fun _ _ =>
    View.emits_pure trivial

theorem emits_anchorRoots (h : Smooth S rpc symbol V heads logs) {cycle : ℕ} :
    V.Emits d e H k 0 k (anchorRoots S.toSeams config cycle) fun _ => True := by
  unfold anchorRoots
  split
  · exact View.emits_pure trivial
  · next anchor hanchor =>
    have hroot (agent : D) :
        V.Emits d e H k 0 k (anchorRoot S.toSeams anchor agent) fun _ => True := by
      refine (h.memoryRoot _).emits.bind_zero fun root _ => ?_
      split
      · exact View.emits_pure trivial
      · exact (h.anchor anchor hanchor _ _).emits
    split
    · exact (hroot _).bind_zero fun _ _ => hroot _
    · exact View.emits_pure trivial

/-- A cycle reports the event if its target has an injection with the event's id. -/
theorem emits_runCycle (h : Smooth S rpc symbol V heads logs) {cycle : ℕ} {injections : Injections}
    (hagents : H → S.address config.agentA ≠ S.address config.agentB ∧
      (e.target = S.address config.agentA ∨ e.target = S.address config.agentB)) :
    V.Emits d e H k (if Hit e (injections.get? e.target) then 1 else 0) k
      (runCycle S.toSeams config d cycle injections) fun _ => True := by
  refine View.Emits.congr ((h.realMove _).emits.bind_zero fun _ _ =>
    h.emits_reportAgent.bind fun _ _ => h.emits_reportAgent.zero_bind fun _ _ =>
      h.emits_anchorRoots.bind_zero fun _ _ => View.emits_pure trivial) fun hH => ?_
  obtain ⟨hne, htarget | htarget⟩ := hagents hH
  · rw [htarget]
    simp [hne.symm]
  · rw [htarget]
    simp [hne]

/-- Polling returns what the height and the events make of it. -/
theorem emits_poll (h : Smooth S rpc symbol V heads logs) {staticInj : Injections} {fb : ℕ} :
    V.Emits d e H k 0 (k + 1) (poll S staticInj d fb) fun r =>
      r = (if (scan symbol (heads k) (logs d) fb).1.items = [] then staticInj
        else (scan symbol (heads k) (logs d) fb).1, (scan symbol (heads k) (logs d) fb).2) := by
  have hscan : V.Emits d e H k 0 (k + 1) (pollInjections rpc symbol d fb)
      (· = scan symbol (heads k) (logs d) fb) := by
    have hheight : V.Emits d e H k 0 (k + 1) rpc.blockNumber (· = heads k) := fun l =>
      (h.blockNumber l k).mono (fun _ hw => hw) fun _ _ ⟨hhead, hat⟩ =>
        ⟨hhead, [], .nil, (List.append_nil l).symm ▸ hat⟩
    refine hheight.bind_zero fun head hhead => ?_
    subst hhead
    rw [scan]
    split_ifs
    · exact View.emits_pure rfl
    · exact View.emits_pure rfl
    · have hlogs : V.Emits d e H (k + 1) 0 (k + 1) (rpc.getLogs d fb (heads k))
          (· = (logs d).filter fun e => fb ≤ e.block ∧ e.block ≤ heads k) := fun l =>
        (h.getLogs d fb (heads k) l (k + 1)).mono (fun _ hw => hw) fun _ _ ⟨hfound, hat⟩ =>
          ⟨hfound, [], .nil, (List.append_nil l).symm ▸ hat⟩
      refine hlogs.bind_zero fun found hfound => View.emits_pure ?_
      rw [hfound]
  rw [poll, h.polling]
  refine hscan.attempt.bind_zero fun o => ?_
  rintro ⟨r, rfl, rfl⟩
  exact View.emits_pure rfl

end Smooth

section Scan

variable {symbol : String} {hs : ℕ → ℕ} {i : ℕ} {e : ChaosLog} {staticInj : Injections}
  {events : List ChaosLog}

theorem scan_cursor : (scan symbol (hs i) events (cursor hs i)).2 = cursor hs (i + 1) := by
  rw [scan, cursor]
  split_ifs <;> rfl

theorem not_hit_empty (hid : e.injectionId ≠ 0) {injections : Injections}
    (h : injections.items = []) : ¬ Hit e (injections.get? e.target) := by
  have hnone : injections.get? e.target = none := by
    rw [Dict.get?, h]
    rfl
  rw [Hit, hnone]
  exact hid.symm

/-- The event's target has an injection with the event's id if and only if the poll reads the
event. -/
theorem hit_scan_iff (symbol : String) (hmem : e ∈ events) (hid : e.injectionId ≠ 0)
    (hinj : ∀ e' ∈ events, e'.injectionId = e.injectionId → e' = e)
    (hone : ∀ e' ∈ events, e'.target = e.target → Scanned hs i e.block → Scanned hs i e'.block →
      e' = e) :
    Hit e ((scan symbol (hs i) events (cursor hs i)).1.get? e.target) ↔ Scanned hs i e.block := by
  rw [scan, Scanned]
  split_ifs with hzero hbehind
  · exact iff_of_false (not_hit_empty hid rfl) fun hscan => hscan.1 hzero
  · exact iff_of_false (not_hit_empty hid rfl) fun hscan => by omega
  · have hread (e' : ChaosLog) :
        e' ∈ events.filter (fun e => cursor hs i ≤ e.block ∧ e.block ≤ hs i) ↔
          e' ∈ events ∧ Scanned hs i e'.block := by
      simp [Scanned, hzero]
    constructor
    · intro hhit
      cases hget : (latest symbol _).get? e.target with
      | none =>
        rw [hget] at hhit
        exact absurd hhit.symm hid
      | some inj =>
        rw [hget] at hhit
        obtain ⟨e', he', -, hsame⟩ := of_get?_latest hget
        obtain ⟨hmem', hscan⟩ := (hread e').mp he'
        rwa [hinj e' hmem' (hsame.symm.trans hhit)] at hscan
    · intro hscan
      obtain ⟨inj, hget⟩ := exists_get?_latest symbol ((hread e).mpr ⟨hmem, hscan⟩)
      obtain ⟨e', he', htarget, hsame⟩ := of_get?_latest hget
      obtain ⟨hmem', hscan'⟩ := (hread e').mp he'
      rw [hget, Hit, ← hone e' hmem' htarget hscan hscan']
      exact hsame

/-- Static injections stand in where the poll reads nothing, and are no event's. -/
theorem hit_poll_iff (hmem : e ∈ events) (hid : e.injectionId ≠ 0)
    (hinj : ∀ e' ∈ events, e'.injectionId = e.injectionId → e' = e)
    (hone : ∀ e' ∈ events, e'.target = e.target → Scanned hs i e.block → Scanned hs i e'.block →
      e' = e)
    (hstatic : ∀ x ∈ staticInj.items, x.2.injectionId = 0) :
    Hit e ((if (scan symbol (hs i) events (cursor hs i)).1.items = [] then staticInj
      else (scan symbol (hs i) events (cursor hs i)).1).get? e.target) ↔ Scanned hs i e.block := by
  rw [← hit_scan_iff symbol hmem hid hinj hone]
  split_ifs with hempty
  · refine iff_of_false (fun hhit => ?_) (not_hit_empty hid hempty)
    cases hget : staticInj.get? e.target with
    | none =>
      rw [hget] at hhit
      exact hid hhit.symm
    | some inj =>
      rw [hget] at hhit
      exact hid (hhit.symm.trans (hstatic _ (Dict.mem_items.mp hget)))
  · exact Iff.rfl

end Scan

namespace Smooth

variable {D W : Type} {S : ArenaSeams D W} {rpc : Rpc W} {symbol : String} {V : View W}
  {heads : ℕ → ℕ} {logs : ℕ → List ChaosLog} {c : Config} {a b : D} {d base n i : ℕ} {e : ChaosLog}
  {staticInj : Injections}

/-- Step `i` of a duel reports the event if its poll reads it. -/
theorem emits_cycleStep (h : Smooth S rpc symbol V heads logs) (hlogs : Numbered logs)
    (hagents : S.address a ≠ S.address b) (hstatic : ∀ x ∈ staticInj.items, x.2.injectionId = 0)
    (hi : i < n) {step extra : ℕ} :
    V.Emits d e (Awaited (S.address a) (S.address b) (fromPoll heads base) n (logs d) e) (base + i)
      (if Scanned (fromPoll heads base) i e.block then 1 else 0) (base + (i + 1))
      (cycleStep S c (c.duel a b) d staticInj step (cursor (fromPoll heads base) i) extra)
      fun r => r.2.1 = cursor (fromPoll heads base) (i + 1) := by
  refine h.emits_poll.bind_zero ?_
  rintro ⟨cycleInj, fromBlock⟩ hr
  obtain ⟨hinj, hfrom⟩ := Prod.mk.inj hr
  have hcursor : fromBlock = cursor (fromPoll heads base) (i + 1) := hfrom.trans scan_cursor
  have hhit (hH : Awaited (S.address a) (S.address b) (fromPoll heads base) n (logs d) e) :
      Hit e (cycleInj.get? e.target) ↔ Scanned (fromPoll heads base) i e.block := by
    rw [hinj]
    exact hit_poll_iff hH.mem (hlogs.id_ne d e hH.mem)
      (fun e' he' hid => hlogs.id_inj d e' he' e hH.mem hid) (hH.single i hi) hstatic
  have hcycle (cycle : ℕ) : V.Emits d e
      (Awaited (S.address a) (S.address b) (fromPoll heads base) n (logs d) e) (base + i + 1)
      (if Scanned (fromPoll heads base) i e.block then 1 else 0) (base + i + 1)
      (runCycle S.toSeams (c.duel a b) d cycle cycleInj) fun _ => True :=
    (h.emits_runCycle fun hH => ⟨hagents, hH.target⟩).congr fun hH => by simp only [hhit hH]
  have hend (x : List CycleReport × ℕ) : V.Emits d e
      (Awaited (S.address a) (S.address b) (fromPoll heads base) n (logs d) e) (base + i + 1) 0
      (base + i + 1) (pure (x.1, fromBlock, x.2))
      fun r => r.2.1 = cursor (fromPoll heads base) (i + 1) := View.emits_pure hcursor
  dsimp only
  by_cases hstep : step ≤ c.cycles
  · rw [if_pos hstep]
    exact (hcycle _).zero_bind fun reports _ => hend (reports, extra)
  · rw [if_neg hstep]
    by_cases hempty : cycleInj.items = []
    · rw [if_pos hempty]
      refine (hend ([], extra)).congr fun hH => (if_neg ?_).symm
      rw [← hhit hH]
      exact not_hit_empty (hlogs.id_ne d e hH.mem) hempty
    · rw [if_neg hempty]
      exact (hcycle _).zero_bind fun reports _ => hend (reports, extra + 1)

theorem emits_pause (h : Smooth S rpc symbol V heads logs) {H : Prop} {k step : ℕ} :
    V.Emits d e H k 0 k (pause S c step) fun _ => True := by
  unfold pause
  split
  · exact (h.sleep _).emits
  · exact View.emits_pure trivial

theorem emits_settle (h : Smooth S rpc symbol V heads logs) {H : Prop} {k : ℕ} {createdAt : ℚ} :
    V.Emits d e H k 0 k (settle S c createdAt) fun _ => True := by
  refine h.monotonic.emits.bind_zero fun now _ => ?_
  dsimp only
  split
  · exact (h.sleep _).emits
  · exact View.emits_pure trivial

/-- The steps from step `i` on report the event once for each poll of theirs that reads it. -/
theorem emits_steps (h : Smooth S rpc symbol V heads logs) (hlogs : Numbered logs)
    (hagents : S.address a ≠ S.address b) (hstatic : ∀ x ∈ staticInj.items, x.2.injectionId = 0)
    (base : ℕ) (createdAt : ℚ) (step extra : ℕ) {left : ℕ} (hi : i + left = n) :
    V.Emits d e (Awaited (S.address a) (S.address b) (fromPoll heads base) n (logs d) e) (base + i)
      ((List.range' i left).countP fun i => Scanned (fromPoll heads base) i e.block) (base + n)
      (steps S c (c.duel a b) d staticInj createdAt left step (cursor (fromPoll heads base) i)
        extra)
      fun _ => True := by
  induction left generalizing i step extra with
  | zero =>
    obtain rfl : i = n := hi
    exact h.emits_settle.attempt.bind_zero fun _ _ => View.emits_pure trivial
  | succ left ih =>
    rw [List.range'_succ, List.countP_cons, Nat.add_comm (List.countP _ _)]
    simp only [decide_eq_true_eq]
    have hlt : i < n := by omega
    refine (h.emits_cycleStep hlogs hagents hstatic hlt).attempt.bind ?_
    rintro _ ⟨⟨reports, fromBlock, extra'⟩, rfl, rfl⟩
    refine h.emits_pause.attempt.bind_zero ?_
    rintro _ ⟨⟨⟩, rfl, -⟩
    have hrest := ih (i := i + 1) (step + 1) extra' (by omega)
    exact hrest.zero_bind fun _ _ => View.emits_pure trivial

theorem returns_create (h : Smooth S rpc symbol V heads logs)
    (hagents : S.address a ≠ S.address b) (l : List Sent) (k : ℕ) :
    Py.Returns (V.At l k) (create S.toSeams (c.duel a b)) fun d w =>
      (∀ call ∈ l, call.duelId ≠ some d) ∧
        V.At (l ++ [.createDuel (S.address a) (S.address b) c.bettingSecs c.durationSecs]) k w := by
  refine (h.createDuel _ _ _ _ l k hagents).bind fun receipt w => ?_
  rintro ⟨hstatus, ⟨d, hd, hfresh⟩, hat⟩
  rw [if_neg (not_not.mpr hstatus), hd]
  exact ⟨d, w, rfl, hfresh, hat⟩

theorem returns_resolve (h : Smooth S rpc symbol V heads logs) (l : List Sent) (k : ℕ) :
    Py.Returns (V.At l k) (resolve S.toSeams d) fun _ => V.At (l ++ [.resolve d]) k := by
  refine (h.send (.resolve d) l k nofun).bind fun receipt w => ?_
  rintro ⟨hstatus, hat⟩
  rw [if_neg (not_not.mpr hstatus)]
  exact ⟨receipt, w, rfl, hat⟩

/-- A duel is created, its events are reported as its polls read them, and it is resolved. -/
theorem returns_runDuel (h : Smooth S rpc symbol V heads logs) (hlogs : Numbered logs)
    (hagents : S.address a ≠ S.address b) (hstatic : ∀ x ∈ staticInj.items, x.2.injectionId = 0)
    (l : List Sent) (base : ℕ) :
    Py.Returns (V.At l base) (runDuel S c staticInj a b) fun duel w =>
      (∀ call ∈ l, call.duelId ≠ some duel.1) ∧ ∃ s,
        Segment duel.1 e (Awaited (S.address a) (S.address b) (fromPoll heads base) c.totalSteps
          (logs duel.1) e) ((List.range c.totalSteps).countP fun i =>
            Scanned (fromPoll heads base) i e.block) s ∧
        V.At (l ++ [.createDuel (S.address a) (S.address b) c.bettingSecs c.durationSecs] ++ s ++
          [.resolve duel.1]) (base + c.totalSteps) w := by
  refine (h.returns_create hagents l base).bind fun d => ?_
  rintro w ⟨hfresh, hat⟩
  obtain ⟨createdAt, w₁, hclock, hat₁⟩ := h.monotonic _ _ w hat
  have hsteps := h.emits_steps (d := d) (i := 0) (e := e) (c := c) hlogs hagents hstatic base
    createdAt 1 0 (Nat.zero_add c.totalSteps)
  obtain ⟨reports, w₂, hrun, -, s, hs, hat₂⟩ := hsteps _ w₁ hat₁
  obtain ⟨r, w₃, hresolve, -, -, hat₃⟩ := (h.returns_resolve (d := d) _ _).attempt w₂ hat₂
  rw [← List.range_eq_range'] at hs
  refine ⟨(d, reports), w₃, ?_, hfresh, s, hs, hat₃⟩
  exact (Py.bind_eq hclock).trans ((Py.bind_eq hrun).trans (Py.bind_eq hresolve))

end Smooth

/-- Before a duel is resolved, an event is reported as often as the segment of the duel does. -/
theorem delivered_of_segment {l s rest : List Sent} {d n : ℕ} {e : ChaosLog} {H : Prop} (hH : H)
    (hfresh : ∀ call ∈ l, call.duelId ≠ some d) (hs : Segment d e H n s) :
    Delivered (l ++ s ++ .resolve d :: rest) d e ↔ n = 1 := by
  have hbefore : ∀ call ∈ l ++ s, decide (call ≠ .resolve d) = true := by
    intro call hcall
    rw [decide_eq_true_eq]
    obtain hcall | hcall := List.mem_append.mp hcall
    · rintro rfl
      exact hfresh _ hcall rfl
    · exact (hs.ofDuel call hcall).2
  have hnone : (l.countP fun call => Delivers d e call) = 0 := by
    rw [List.countP_eq_zero]
    intro call hcall hdelivers
    rw [decide_eq_true_eq] at hdelivers
    cases call with
    | reportCall d' agent injectionId rBps ingested survived failed =>
      exact hfresh _ hcall (congrArg some hdelivers.1)
    | _ => exact hdelivers
  rw [Delivered, List.takeWhile_append_of_pos hbefore, List.takeWhile_cons_of_neg (by simp),
    List.append_nil, List.countP_append, hnone, hs.count hH, Nat.zero_add]

namespace Smooth

variable {D W : Type} {S : ArenaSeams D W} {rpc : Rpc W} {symbol : String} {V : View W}
  {heads : ℕ → ℕ} {logs : ℕ → List ChaosLog} {c : Config} {base : ℕ} {e : ChaosLog}

/-- The duels of a run, the one at index `j` after `j` times as many polls as a duel has steps. -/
theorem returns_runDuels (h : Smooth S rpc symbol V heads logs) (hlogs : Numbered logs)
    {ps : List (D × D)} {injectionsPerDuel : List Injections}
    (hagents : ∀ p ∈ ps, S.address p.1 ≠ S.address p.2)
    (hstatic : ∀ staticInj ∈ injectionsPerDuel, ∀ x ∈ staticInj.items, x.2.injectionId = 0)
    (l : List Sent) (base : ℕ) :
    Py.Returns (V.At l base) (runDuels S c ps injectionsPerDuel) fun duels w => ∃ l' k,
      V.At (l ++ l') k w ∧ ∀ (j : ℕ) p duel, ps[j]? = some p → duels[j]? = some duel →
        Awaited (S.address p.1) (S.address p.2) (fromPoll heads (base + j * c.totalSteps))
          c.totalSteps (logs duel.1) e →
        (Delivered (l ++ l') duel.1 e ↔
          Covered (fromPoll heads (base + j * c.totalSteps)) c.totalSteps e.block) := by
  induction ps generalizing injectionsPerDuel l base with
  | nil =>
    refine Py.returns_pure fun w hw => ⟨[], base, (List.append_nil l).symm ▸ hw, ?_⟩
    intro j p duel hp
    cases hp
  | cons p ps ih =>
    have hhead : ∀ x ∈ (injectionsPerDuel.headD ∅).items, x.2.injectionId = 0 := by
      cases injectionsPerDuel with
      | nil => exact nofun
      | cons staticInj rest => exact hstatic staticInj List.mem_cons_self
    have hduel :=
      h.returns_runDuel (e := e) (c := c) hlogs (hagents p List.mem_cons_self) hhead l base
    refine hduel.bind fun duel => ?_
    rintro w ⟨hfresh, s, hs, hat⟩
    obtain ⟨duels, w', hrun, l', k, hat', hrest⟩ := ih
      (fun p hp => hagents p (List.mem_cons_of_mem _ hp))
      (fun staticInj hmem => hstatic staticInj (List.mem_of_mem_tail hmem)) _ _ w hat
    generalize hcreate : Sent.createDuel (S.address p.1) (S.address p.2) c.bettingSecs
      c.durationSecs = create at hat' hrest
    have hsplit : l ++ [create] ++ s ++ [.resolve duel.1] ++ l' =
        l ++ ([create] ++ s ++ .resolve duel.1 :: l') := by simp
    refine ⟨duel :: duels, w', Py.bind_eq hrun, _, k, hsplit ▸ hat', fun j q x hq hx hawaited => ?_⟩
    rw [← hsplit]
    cases j with
    | zero =>
      obtain rfl := Option.some.inj hq
      obtain rfl := Option.some.inj hx
      rw [Nat.zero_mul, Nat.add_zero] at hawaited ⊢
      rw [List.append_assoc, List.singleton_append, delivered_of_segment hawaited _ hs,
        countP_scanned]
      intro call hcall
      obtain hcall | hcall := List.mem_append.mp hcall
      · exact hfresh call hcall
      · rw [List.mem_singleton.mp hcall, ← hcreate]
        nofun
    | succ j =>
      have hpolls : base + (j + 1) * c.totalSteps = base + c.totalSteps + j * c.totalSteps := by
        rw [Nat.succ_mul]
        omega
      rw [hpolls] at hawaited ⊢
      exact hrest j q x hq hx hawaited

end Smooth

/-- In a run in which nothing fails, an event is reported on its target exactly once before its duel
is resolved, if and only if its block is not below the first positive height at which the duel is
polled, and not above the height at a later poll of the duel. -/
theorem delivered_iff {D W : Type} {S : ArenaSeams D W} {rpc : Rpc W} {symbol : String} {V : View W}
    {heads : ℕ → ℕ} {logs : ℕ → List ChaosLog} (c : Config) {duelists : List D}
    {injectionsPerDuel : List Injections} (h : Smooth S rpc symbol V heads logs)
    (hlogs : Numbered logs) (hagents : ∀ p ∈ pairs duelists, S.address p.1 ≠ S.address p.2)
    (hstatic : ∀ staticInj ∈ injectionsPerDuel, ∀ x ∈ staticInj.items, x.2.injectionId = 0)
    (w : W) :
    ∃ r w', run S c duelists injectionsPerDuel w = (some r, w') ∧ ∀ (j : ℕ) p d e,
      (pairs duelists)[j]? = some p → r.duelIds[j]? = some d →
      Awaited (S.address p.1) (S.address p.2) (fromPoll heads (V.polls w + j * c.totalSteps))
        c.totalSteps (logs d) e →
      (Delivered (V.sent w') d e ↔
        Covered (fromPoll heads (V.polls w + j * c.totalSteps)) c.totalSteps e.block) := by
  have hduels (e : ChaosLog) :=
    h.returns_runDuels (c := c) (e := e) hlogs hagents hstatic (V.sent w)
    (V.polls w) w ⟨rfl, rfl⟩
  obtain ⟨duels, w', hrun, -⟩ := hduels ⟨0, 0, 0, 0, 0⟩
  refine ⟨⟨duels.map (·.1), aggregate (duels.flatMap (·.2)), duels.flatMap (·.2)⟩, w',
    Py.bind_eq hrun, fun j p d e hp hd hawaited => ?_⟩
  obtain ⟨duels', w'', hrun', l', k, hat, hdelivered⟩ := hduels e
  obtain ⟨heq, rfl⟩ := Prod.mk.inj (hrun'.symm.trans hrun)
  obtain rfl := Option.some.inj heq
  rw [List.getElem?_map] at hd
  obtain ⟨duel, hduel, rfl⟩ := Option.map_eq_some_iff.mp hd
  rw [hat.1]
  exact hdelivered j p duel hp hduel hawaited

namespace Demo

/-- A world in which nothing fails. -/
structure World where
  sent : List Sent
  polls : ℕ

def view : View World := ⟨World.sent, World.polls⟩

/-- The id after all that were used. -/
def nextId (l : List Sent) : ℕ := (l.filterMap Sent.duelId).foldr max 0 + 1

def send (call : Sent) : Py World Receipt := fun w =>
  (some ⟨1, if call.duelId = none then some (nextId w.sent) else none⟩,
    { w with sent := w.sent ++ [call] })

/-- Five blocks between two polls. -/
def heads (k : ℕ) : ℕ := 100 + 5 * k

/-- An event between the first two polls. -/
def early : ChaosLog := ⟨102, 1, 0xA1, 0xE1, itemMemoryWipe⟩

/-- An event after the last poll, before the end of the trading window. -/
def late : ChaosLog := ⟨121, 2, 0xA2, 0xE1, itemMemoryWipe⟩

def logs (d : ℕ) : List ChaosLog := if d = 1 then [early, late] else []

def rpc : Rpc World where
  blockNumber w := (some (heads w.polls), { w with polls := w.polls + 1 })
  getLogs d fromBlock toBlock :=
    pure ((logs d).filter fun e => fromBlock ≤ e.block ∧ e.block ≤ toBlock)

def seams : ArenaSeams Address World where
  address := id
  send := send
  decide _ _ _ _ := pure ⟨1, "long"⟩
  remember _ _ _ _ _ := pure ()
  memoryRoot _ := pure []
  realMove _ := pure 10
  anchor := none
  pollInjections := some (pollInjections rpc "SOL")
  monotonic := pure 0
  sleep _ := pure ()

/-- Four cycles in a window of 45 seconds, a step every nine: five polls. -/
def config : Config := { symbol := "SOL", cycles := 4, durationSecs := 45, cycleIntervalSecs := 9 }

def start : World := ⟨[], 0⟩

theorem nextId_fresh {l : List Sent} {call : Sent} (h : call ∈ l) :
    call.duelId ≠ some (nextId l) := by
  intro hid
  have hle : nextId l ≤ (l.filterMap Sent.duelId).foldr max 0 :=
    List.le_max_of_le (List.mem_filterMap.mpr ⟨call, h, hid⟩) (le_refl _)
  rw [nextId] at hle
  omega

theorem quiet_pure {α : Type} (a : α) : view.Quiet (pure a : Py World α) :=
  fun _ _ => Py.returns_pure fun _ hw => hw

theorem smooth : Smooth seams rpc "SOL" view heads logs where
  polling := rfl
  blockNumber l k := by
    rintro w ⟨rfl, rfl⟩
    exact ⟨_, _, rfl, rfl, rfl, rfl⟩
  getLogs d fromBlock toBlock l k := Py.returns_pure fun _ hw => ⟨rfl, hw⟩
  createDuel agentA agentB bettingSecs tradingSecs l k _ := by
    rintro w ⟨rfl, rfl⟩
    exact ⟨_, _, rfl, rfl, ⟨_, rfl, fun _ hcall => nextId_fresh hcall⟩, rfl, rfl⟩
  send call l k _ := by
    rintro w ⟨rfl, rfl⟩
    exact ⟨_, _, rfl, rfl, rfl, rfl⟩
  decide _ _ _ _ := quiet_pure _
  remember _ _ _ _ _ := quiet_pure _
  memoryRoot _ := quiet_pure _
  realMove _ := quiet_pure _
  anchor := nofun
  monotonic := quiet_pure _
  sleep _ := quiet_pure _

theorem mem_logs {d : ℕ} {e : ChaosLog} : e ∈ logs d ↔ d = 1 ∧ (e = early ∨ e = late) := by
  unfold logs
  split <;> simp [*]

theorem numbered : Numbered logs where
  id_ne d e he := by
    obtain ⟨-, rfl | rfl⟩ := mem_logs.mp he <;> decide
  id_inj d e he e' he' := by
    obtain ⟨-, rfl | rfl⟩ := mem_logs.mp he <;> obtain ⟨-, rfl | rfl⟩ := mem_logs.mp he' <;> decide

/-- The event between the first two polls is reported once. -/
theorem early_delivered :
    Delivered (run seams config [0xA1, 0xA2] [] start).2.sent 1 early := by
  have hagents : ∀ p ∈ pairs [(0xA1 : Address), 0xA2], seams.address p.1 ≠ seams.address p.2 := by
    intro p hp
    obtain rfl := List.mem_singleton.mp hp
    decide
  have hstatic : ∀ staticInj ∈ ([] : List Injections), ∀ x ∈ staticInj.items,
      x.2.injectionId = 0 := nofun
  obtain ⟨r, w', hrun, hdelivered⟩ := delivered_iff config smooth numbered hagents hstatic start
  have hids :
      (run seams config [(0xA1 : Address), 0xA2] [] start).1.map (·.duelIds) = some [1] := by
    decide
  rw [hrun] at hids ⊢
  have hid : r.duelIds = [1] := Option.some.inj hids
  refine (hdelivered 0 (0xA1, 0xA2) 1 early rfl ?_ ⟨mem_logs.mpr ⟨rfl, .inl rfl⟩, .inl rfl, ?_⟩).mpr
    ⟨0, 1, by decide⟩
  · rw [hid]
    rfl
  · intro i _ e' he' htarget _ _
    obtain ⟨-, rfl | rfl⟩ := mem_logs.mp he'
    · rfl
    · exact absurd htarget (by decide)

/-- Nothing fails, and the event in the final gap is not reported. -/
theorem late_undelivered : Smooth seams rpc "SOL" view heads logs ∧ Numbered logs ∧
    Awaited 0xA1 0xA2 (fromPoll heads 0) config.totalSteps (logs 1) late ∧
    (run seams config [0xA1, 0xA2] [] start).1.map (·.duelIds) = some [1] ∧
    ¬ Delivered (run seams config [0xA1, 0xA2] [] start).2.sent 1 late := by
  refine ⟨smooth, numbered, ⟨mem_logs.mpr ⟨rfl, .inr rfl⟩, .inr rfl, ?_⟩, by decide,
    by decide +kernel⟩
  intro i _ e' he' htarget _ _
  obtain ⟨-, rfl | rfl⟩ := mem_logs.mp he'
  · exact absurd htarget (by decide)
  · rfl

end Demo

end Arena
end Arcane
