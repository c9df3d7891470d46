import Arcane.Lib.Clock
import Arcane.Memory.Exact
import Arcane.Memory.Live
import Mathlib.Analysis.SpecialFunctions.Exp

/-!
# Decay over many steps

`decay_step` over exact reals, at readings of a clock that may step back.

* `decayStep_get?`: one step, entry by entry.
* `entry_lives`: an entry has decayed by the forward steps of the readings since it was stored.
* `steady_iff`: that is the decay up to the largest reading, unless the clock steps forward again
  where it had been before.
-/

namespace Arcane
namespace Memory

open Text

/-- `math.exp` is the exponential function, too. -/
structure Numerics.ExactReal {E : Type} (N : Numerics ℝ E) : Prop extends N.Exact where
  exp : ∀ x, N.exp (.finite x) = some (.finite (Real.exp x))

namespace MemoryService

/-- The readings of the decay steps. -/
def readings {E : Type} (cs : List (Live ℝ E)) : List ℝ :=
  cs.filterMap fun
    | .decayStep now => some now
    | _ => none

/-- Every number that decay reads is a real. -/
structure Reals {E : Type} (s : MemoryService ℝ E) : Prop where
  lambda : ∀ kind, ∃ lam, (s.decayLambdas.get? kind).getD (.finite 0) = .finite lam
  entries : ∀ m ∈ s.entries.items, ∃ w t, m.2.weight = .finite w ∧ m.2.lastDecayTs = .finite t

/-- `THETA`. -/
noncomputable def theta : ℝ := 5 / 100

/-- The weight that is due after the calls, of an entry stored at `t₀` with the constant `lam`. -/
noncomputable def due {E : Type} (lam t₀ : ℝ) (cs : List (Live ℝ E)) : ℝ :=
  Real.exp (-lam * (Clock.latest t₀ (readings cs) - t₀))

/-- After any of the calls, the entry is there if and only if the weight due never was below
`THETA`, and has that weight; a pinned entry keeps the weight 1. -/
structure Steady {E : Type} (N : Numerics ℝ E) (s : MemoryService ℝ E) (traceId : Str)
    (pinned : Bool) (lam t₀ : ℝ) (cs : List (Live ℝ E)) : Prop where
  exempt : ∀ p, p <+: cs → pinned = true →
    ∃ e, (lives N s p).entries.get? traceId = some e ∧ e.weight = .finite 1
  evicted : ∀ p, p <+: cs → pinned = false →
    ((lives N s p).entries.get? traceId = none ↔ ∃ q, q <+: p ∧ due lam t₀ q < theta)
  weight : ∀ p, p <+: cs → pinned = false → ∀ e, (lives N s p).entries.get? traceId = some e →
    e.weight = .finite (due lam t₀ p)

section Step

variable {E : Type} {N : Numerics ℝ E} {s s' : MemoryService ℝ E} {t lam w u : ℝ} {e : Entry ℝ}
  {traceId : Str} {c : Live ℝ E}

theorem decayed_pinned (hpinned : e.pinned = true) (now : Double ℝ) :
    s.decayed N now e = some { e with lastDecayTs := now } := by
  rw [decayed, if_pos hpinned]

theorem decayed_real (hN : N.ExactReal) (hpinned : e.pinned = false)
    (hlam : (s.decayLambdas.get? e.kind).getD (.finite 0) = .finite lam)
    (hw : e.weight = .finite w) (hu : e.lastDecayTs = .finite u) :
    s.decayed N (.finite t) e = some { e with
      weight := .finite (w * Real.exp (-lam * max 0 (t - u)))
      lastDecayTs := .finite t } := by
  have hfalse : ¬ e.pinned = true := by simp [hpinned]
  simp only [decayed, if_neg hfalse, hu, hN.sub, hN.max_zero]
  rw [hN.quot_zero, hlam, hN.neg, hN.mul, hN.exp, Option.map_some, hw, hN.mul]

theorem Reals.decayed_isSome (hN : N.ExactReal) (hs : s.Reals) (t : ℝ) :
    ∀ m ∈ s.entries.items, (s.decayed N (.finite t) m.2).isSome := by
  intro m hm
  obtain ⟨w, u, hw, hu⟩ := hs.entries m hm
  obtain ⟨lam, hlam⟩ := hs.lambda m.2.kind
  cases hpinned : m.2.pinned with
  | true => rw [decayed_pinned hpinned]; rfl
  | false => rw [decayed_real hN hpinned hlam hw hu]; rfl

/-- One step, entry by entry. -/
theorem decayStep_get? (hN : N.ExactReal) (hs : s.Reals) (t : ℝ) (traceId : Str) :
    (s.decayStep N (.finite t)).1.entries.get? traceId =
      ((s.entries.get? traceId).bind (s.decayed N (.finite t))).filter (kept N) := by
  have hall := hs.decayed_isSome hN t
  have hstop : (s.entries.mapUntil (s.decayed N (.finite t))).2 = false :=
    (Assoc.mapUntil_of_isSome hall).1
  simp only [decayStep, hstop, Bool.false_eq_true, if_false]
  rw [Dict.get?_filter, Dict.get?_mapUntil hall]

theorem kept_pinned (hpinned : e.pinned = true) : kept N e = true := by
  rw [kept, hpinned, Bool.true_or]

theorem kept_real (hN : N.ExactReal) (hpinned : e.pinned = false) (hw : e.weight = .finite w) :
    kept N e = decide (theta ≤ w) := by
  rw [kept, hpinned, Bool.false_or, hw, hN.quot 5 100 (by decide), Bool.eq_iff_iff,
    Bool.not_eq_true', Bool.eq_false_iff, Ne, hN.lt, not_lt, decide_eq_true_iff, theta]
  norm_num

theorem weight_newEntry (hN : N.ExactReal) (s : MemoryService ℝ E) (now : Double ℝ) (traceId : Str)
    (vec : List E) (kind : Str) (pinned : Bool) (payload : Option (Payload ℝ)) :
    (s.newEntry N now traceId vec kind pinned payload).weight = .finite 1 := by
  rw [newEntry, hN.quot_one, Nat.cast_one]

theorem Reals.live (hN : N.ExactReal) (hs : s.Reals) (c : Live ℝ E) : (live N s c).Reals where
  lambda kind := by
    rw [lambdas_live]
    exact hs.lambda kind
  entries := by
    refine forall_live c (fun now traceId vec kind pinned payload _ => ?_)
      (fun now k e e' he hd => ?_) hs.entries
    · exact ⟨1, now, weight_newEntry hN s _ _ _ _ _ _, rfl⟩
    · obtain ⟨w, u, hw, hu⟩ := he
      obtain ⟨lam, hlam⟩ := hs.lambda e.kind
      cases hpinned : e.pinned with
      | true =>
        rw [decayed_pinned hpinned] at hd
        rw [← Option.some.inj hd]
        exact ⟨w, now, hw, rfl⟩
      | false =>
        rw [decayed_real hN hpinned hlam hw hu] at hd
        rw [← Option.some.inj hd]
        exact ⟨_, now, rfl, rfl⟩

theorem Reals.lives (hN : N.ExactReal) (hs : s.Reals) (cs : List (Live ℝ E)) :
    (lives N s cs).Reals := by
  induction cs generalizing s with
  | nil => exact hs
  | cons c cs ih => exact ih (hs.live hN c)

end Step

/-! ## The life of an entry -/

/-- The weight that an entry has after the calls, while it is there. -/
noncomputable def credit {E : Type} (lam t₀ : ℝ) (cs : List (Live ℝ E)) : ℝ :=
  Real.exp (-lam * Clock.forward t₀ (readings cs))

/-- No call finds the weight of the entry below `THETA`. -/
def Alive {E : Type} (lam t₀ : ℝ) (cs : List (Live ℝ E)) : Prop :=
  ∀ p, p <+: cs → theta ≤ credit lam t₀ p

section Entry

variable {E : Type} {N : Numerics ℝ E} {s : MemoryService ℝ E} {lam t₀ : ℝ} {e : Entry ℝ}
  {traceId : Str} {cs : List (Live ℝ E)} {c : Live ℝ E}

theorem alive_concat :
    Alive lam t₀ (cs ++ [c]) ↔ Alive lam t₀ cs ∧ theta ≤ credit lam t₀ (cs ++ [c]) := by
  simp only [Alive, List.prefix_concat_iff]
  constructor
  · exact fun h => ⟨fun p hp => h p (.inr hp), h _ (.inl rfl)⟩
  · rintro ⟨h, hlast⟩ p (rfl | hp)
    · exact hlast
    · exact h p hp

theorem readings_other (hc : ∀ now, c ≠ .decayStep now) : readings (cs ++ [c]) = readings cs := by
  rw [readings, List.filterMap_append]
  cases c with
  | decayStep now => exact absurd rfl (hc now)
  | _ => simp [readings]

theorem readings_decayStep (now : ℝ) :
    readings (cs ++ [.decayStep now]) = readings cs ++ [now] := by
  rw [readings, List.filterMap_append]
  rfl

theorem credit_decayStep (now : ℝ) :
    credit lam t₀ (cs ++ [.decayStep now]) =
      credit lam t₀ cs * Real.exp (-lam * max 0 (now - (readings cs).getLastD t₀)) := by
  rw [credit, readings_decayStep, Clock.forward_concat, mul_add, Real.exp_add, credit]

theorem theta_le_one : theta ≤ 1 := by
  rw [theta]
  norm_num

/-- An entry that was stored at `t₀` decays by the forward steps of the readings since, until that
is below `THETA`. -/
theorem entry_lives (hN : N.ExactReal) (hs : s.Reals) (hget : s.entries.get? traceId = some e)
    (hpinned : e.pinned = false)
    (hlam : (s.decayLambdas.get? e.kind).getD (.finite 0) = .finite lam)
    (hw : e.weight = .finite 1) (hu : e.lastDecayTs = .finite t₀)
    (hcs : ∀ c ∈ cs, ¬ c.Adds traceId) :
    (Alive lam t₀ cs → (lives N s cs).entries.get? traceId = some { e with
      weight := .finite (credit lam t₀ cs)
      lastDecayTs := .finite ((readings cs).getLastD t₀) }) ∧
    (¬ Alive lam t₀ cs → (lives N s cs).entries.get? traceId = none) := by
  induction cs using List.reverseRecOn with
  | nil =>
    have hone : credit lam t₀ ([] : List (Live ℝ E)) = 1 := by
      simp [credit, readings, Clock.forward]
    refine ⟨fun _ => ?_, fun h => absurd (fun p hp => ?_) h⟩
    · rw [hone, ← hw]
      show s.entries.get? traceId = some { e with lastDecayTs := .finite t₀ }
      rw [hget, ← hu]
    · rw [List.prefix_nil.mp hp, hone]
      exact theta_le_one
  | append_singleton cs c ih =>
    obtain ⟨hthere, hgone⟩ := ih fun c' hc' => hcs c' (List.mem_append_left _ hc')
    have hc : ¬ c.Adds traceId := hcs c (List.mem_append_right _ List.mem_cons_self)
    rw [lives_concat, alive_concat]
    by_cases hdecay : ∃ now, c = .decayStep now
    · obtain ⟨now, rfl⟩ := hdecay
      have hstep := decayStep_get? hN (hs.lives hN cs) now traceId
      rw [live, hstep]
      by_cases halive : Alive lam t₀ cs
      · -- the entry is there, and the step weighs it
        have hdecayed : (lives N s cs).decayed N (.finite now) { e with
            weight := .finite (credit lam t₀ cs)
            lastDecayTs := .finite ((readings cs).getLastD t₀) } = some { e with
            weight := .finite (credit lam t₀ (cs ++ [.decayStep now]))
            lastDecayTs := .finite now } := by
          rw [credit_decayStep]
          exact decayed_real hN hpinned (by rw [lambdas_lives]; exact hlam) rfl rfl
        have hkept : kept N { e with
            weight := .finite (credit lam t₀ (cs ++ [.decayStep now]))
            lastDecayTs := .finite now } =
            decide (theta ≤ credit lam t₀ (cs ++ [.decayStep now])) := kept_real hN hpinned rfl
        rw [hthere halive, Option.bind_some, hdecayed, readings_decayStep, List.getLastD_concat,
          Option.filter_some, hkept]
        refine ⟨fun h => ?_, fun h => ?_⟩
        · rw [decide_eq_true h.2, if_pos rfl]
        · have hlt : ¬ theta ≤ credit lam t₀ (cs ++ [.decayStep now]) := fun hle => h ⟨halive, hle⟩
          rw [decide_eq_false hlt, if_neg Bool.false_ne_true]
      · refine ⟨fun h => absurd h.1 halive, fun _ => ?_⟩
        rw [hgone halive]
        rfl
    · have hother : ∀ now, c ≠ .decayStep now := fun now heq => hdecay ⟨now, heq⟩
      have hcredit : credit lam t₀ (cs ++ [c]) = credit lam t₀ cs := by
        rw [credit, readings_other hother, credit]
      have halive : Alive lam t₀ cs ∧ theta ≤ credit lam t₀ (cs ++ [c]) ↔ Alive lam t₀ cs := by
        rw [hcredit, and_iff_left_iff_imp]
        exact fun h => h cs (List.prefix_refl cs)
      rw [get?_live hc hother, halive, hcredit, readings_other hother]
      exact ⟨hthere, hgone⟩

/-- A pinned entry keeps its weight. -/
theorem pinned_lives (hN : N.ExactReal) (hs : s.Reals) (hget : s.entries.get? traceId = some e)
    (hpinned : e.pinned = true) (hcs : ∀ c ∈ cs, ¬ c.Adds traceId) :
    ∃ e', (lives N s cs).entries.get? traceId = some e' ∧ e'.pinned = true ∧
      e'.weight = e.weight := by
  induction cs using List.reverseRecOn with
  | nil => exact ⟨e, hget, hpinned, rfl⟩
  | append_singleton cs c ih =>
    obtain ⟨e', hget', hpinned', hweight⟩ := ih fun c' hc' => hcs c' (List.mem_append_left _ hc')
    have hc : ¬ c.Adds traceId := hcs c (List.mem_append_right _ List.mem_cons_self)
    rw [lives_concat]
    by_cases hdecay : ∃ now, c = .decayStep now
    · obtain ⟨now, rfl⟩ := hdecay
      refine ⟨{ e' with lastDecayTs := .finite now }, ?_, hpinned', hweight⟩
      rw [live, decayStep_get? hN (hs.lives hN cs), hget', Option.bind_some,
        decayed_pinned hpinned', Option.filter_some]
      exact if_pos (kept_pinned hpinned')
    · exact ⟨e', (get?_live hc fun now heq => hdecay ⟨now, heq⟩).trans hget', hpinned', hweight⟩

/-- What is due is never less than what is there, or nothing is ever evicted. -/
theorem theta_le_due (h : theta ≤ credit lam t₀ cs) : theta ≤ due lam t₀ cs := by
  have hlatest : 0 ≤ Clock.latest t₀ (readings cs) - t₀ := sub_nonneg.mpr (Clock.le_latest _ _)
  have hforward := Clock.latest_sub_le_forward t₀ (readings cs)
  rcases le_total 0 lam with hlam | hlam
  · refine h.trans (Real.exp_le_exp.mpr ?_)
    exact mul_le_mul_of_nonpos_left hforward (neg_nonpos.mpr hlam)
  · refine theta_le_one.trans ((Real.one_le_exp_iff).mpr ?_)
    exact mul_nonneg (neg_nonneg.mpr hlam) hlatest

theorem alive_iff (hdue : ∀ p, p <+: cs → (∀ q, q <+: p → theta ≤ due lam t₀ q) →
    credit lam t₀ p = due lam t₀ p) :
    Alive lam t₀ cs ↔ ∀ q, q <+: cs → theta ≤ due lam t₀ q := by
  constructor
  · exact fun h q hq => theta_le_due (h q hq)
  · intro h q hq
    rw [hdue q hq fun r hr => h r (hr.trans hq)]
    exact h q hq

end Entry

section Added

variable {E : Type} {N : Numerics ℝ E} {s s' : MemoryService ℝ E} {t₀ lam : ℝ} {traceId : Str}
  {vec : List E} {kind : Str} {pinned : Bool} {payload : Option (Payload ℝ)} {cs : List (Live ℝ E)}

theorem Reals.added (hN : N.ExactReal) (hs : s.Reals)
    (hadd : s.add N (.finite t₀) traceId vec kind pinned payload = some s') : s'.Reals := by
  have hlive := hs.live hN (.add t₀ traceId vec kind pinned payload)
  rwa [MemoryService.live, hadd, Option.getD_some] at hlive

/-- An entry lives from the `add` that stored it. -/
theorem added_lives (hN : N.ExactReal) (hs : s.Reals)
    (hadd : s.add N (.finite t₀) traceId vec kind pinned payload = some s')
    (hlam : (s.decayLambdas.get? kind).getD (.finite 0) = .finite lam)
    (hpin : (pinned || kind = lit "pinned") = false) (hcs : ∀ c ∈ cs, ¬ c.Adds traceId) :
    (Alive lam t₀ cs → ∃ e, (lives N s' cs).entries.get? traceId = some e ∧
      e.weight = .finite (credit lam t₀ cs)) ∧
    (¬ Alive lam t₀ cs → (lives N s' cs).entries.get? traceId = none) := by
  have hreals := hs.added hN hadd
  obtain ⟨-, -, rfl⟩ := add_eq_some_iff.mp hadd
  have hget : (s.entries.set traceId (s.newEntry N (.finite t₀) traceId vec kind pinned
      payload)).get? traceId =
        some (s.newEntry N (.finite t₀) traceId vec kind pinned payload) := by
    rw [Dict.get?_set, if_pos rfl]
  have hone := weight_newEntry hN s (.finite t₀) traceId vec kind pinned payload
  have hkind : (s.newEntry N (.finite t₀) traceId vec kind pinned payload).kind = kind := by
    rw [newEntry, if_neg (by simp_all)]
  obtain ⟨hthere, hgone⟩ := entry_lives hN hreals hget hpin (by rw [hkind]; exact hlam) hone rfl hcs
  exact ⟨fun h => ⟨_, hthere h, rfl⟩, hgone⟩

theorem added_pinned (hN : N.ExactReal) (hs : s.Reals)
    (hadd : s.add N (.finite t₀) traceId vec kind pinned payload = some s')
    (hpin : (pinned || kind = lit "pinned") = true) (hcs : ∀ c ∈ cs, ¬ c.Adds traceId) :
    ∃ e, (lives N s' cs).entries.get? traceId = some e ∧ e.weight = .finite 1 := by
  have hreals := hs.added hN hadd
  obtain ⟨-, -, rfl⟩ := add_eq_some_iff.mp hadd
  have hget : (s.entries.set traceId (s.newEntry N (.finite t₀) traceId vec kind pinned
      payload)).get? traceId =
        some (s.newEntry N (.finite t₀) traceId vec kind pinned payload) := by
    rw [Dict.get?_set, if_pos rfl]
  obtain ⟨e, he, -, hweight⟩ := pinned_lives hN hreals hget hpin hcs
  exact ⟨e, he, hweight.trans (weight_newEntry hN s _ _ _ _ _ _)⟩

/-- The clock of an entry that decays steadily makes no forward step twice. -/
theorem forward_of_steady (hN : N.ExactReal) (hs : s.Reals)
    (hadd : s.add N (.finite t₀) traceId vec kind pinned payload = some s')
    (hlam : (s.decayLambdas.get? kind).getD (.finite 0) = .finite lam)
    (hpin : (pinned || kind = lit "pinned") = false) (hne : lam ≠ 0)
    (hcs : ∀ c ∈ cs, ¬ c.Adds traceId) (h : Steady N s' traceId false lam t₀ cs)
    (hdue : ∀ q, q <+: cs → theta ≤ due lam t₀ q) :
    Clock.forward t₀ (readings cs) = Clock.latest t₀ (readings cs) - t₀ := by
  obtain ⟨hthere, hgone⟩ := added_lives hN hs hadd hlam hpin hcs
  have hsome := mt (h.evicted cs List.prefix_rfl rfl).mp fun ⟨q, hq, hlt⟩ =>
    not_lt.mpr (hdue q hq) hlt
  have halive : Alive lam t₀ cs := by
    by_contra hdead
    exact hsome (hgone hdead)
  obtain ⟨e, hget, hweight⟩ := hthere halive
  have heq : credit lam t₀ cs = due lam t₀ cs :=
    Double.finite.inj (hweight.symm.trans (h.weight cs List.prefix_rfl rfl e hget))
  exact mul_left_cancel₀ (neg_ne_zero.mpr hne) (Real.exp_injective heq)

theorem Steady.initial {p : List (Live ℝ E)} (hp : p <+: cs)
    (h : Steady N s traceId pinned lam t₀ cs) : Steady N s traceId pinned lam t₀ p where
  exempt q hq := h.exempt q (hq.trans hp)
  evicted q hq := h.evicted q (hq.trans hp)
  weight q hq := h.weight q (hq.trans hp)

/-- An entry decays steadily while what it has lost is what is due. -/
theorem steady_of_due (hN : N.ExactReal) (hs : s.Reals)
    (hadd : s.add N (.finite t₀) traceId vec kind pinned payload = some s')
    (hlam : (s.decayLambdas.get? kind).getD (.finite 0) = .finite lam)
    (hpin : (pinned || kind = lit "pinned") = false) (hcs : ∀ c ∈ cs, ¬ c.Adds traceId)
    (hdue : ∀ p, p <+: cs → (∀ q, q <+: p → theta ≤ due lam t₀ q) →
      credit lam t₀ p = due lam t₀ p) :
    Steady N s' traceId false lam t₀ cs := by
  have halive (p : List (Live ℝ E)) (hp : p <+: cs) :
      Alive lam t₀ p ↔ ∀ q, q <+: p → theta ≤ due lam t₀ q :=
    alive_iff fun q hq => hdue q (hq.trans hp)
  have hlife (p : List (Live ℝ E)) (hp : p <+: cs) :=
    added_lives hN hs hadd hlam hpin fun c hc => hcs c (hp.subset hc)
  refine ⟨fun _ _ h => absurd h Bool.false_ne_true, fun p hp _ => ?_, fun p hp _ e hget => ?_⟩
  · obtain ⟨hthere, hgone⟩ := hlife p hp
    by_cases hp' : Alive lam t₀ p
    · obtain ⟨e, hget, -⟩ := hthere hp'
      refine iff_of_false ?_ ?_
      · rw [hget]
        exact Option.some_ne_none _
      · rintro ⟨q, hq, hlt⟩
        exact not_lt.mpr ((halive p hp).mp hp' q hq) hlt
    · refine iff_of_true (hgone hp') ?_
      rw [halive p hp] at hp'
      push Not at hp'
      exact hp'
  · obtain ⟨hthere, hgone⟩ := hlife p hp
    by_cases hp' : Alive lam t₀ p
    · obtain ⟨e', hget', hweight⟩ := hthere hp'
      rw [← Option.some.inj (hget'.symm.trans hget), hweight, hdue p hp ((halive p hp).mp hp')]
    · rw [hgone hp'] at hget
      cases hget

end Added

/-- After an `add` at `t₀`, the weight of the entry and its eviction follow the largest reading so
far if and only if it is pinned, or does not decay, or the clock makes no forward step twice while
the entry is due to be there. -/
theorem steady_iff {E : Type} {N : Numerics ℝ E} (hN : N.ExactReal) {s s' : MemoryService ℝ E}
    (hs : s.Reals) {t₀ lam : ℝ} {traceId : Str} {vec : List E} {kind : Str} {pinned : Bool}
    {payload : Option (Payload ℝ)}
    (hadd : s.add N (.finite t₀) traceId vec kind pinned payload = some s')
    (hlam : (s.decayLambdas.get? kind).getD (.finite 0) = .finite lam)
    {cs : List (Live ℝ E)} (hcs : ∀ c ∈ cs, ¬ c.Adds traceId) :
    Steady N s' traceId (pinned || kind = lit "pinned") lam t₀ cs ↔
      ((pinned || kind = lit "pinned") = false → lam ≠ 0 →
        ∀ p, p <+: cs → (∀ q, q <+: p → theta ≤ due lam t₀ q) →
          Clock.forward t₀ (readings p) = Clock.latest t₀ (readings p) - t₀) := by
  cases hpin : (pinned || kind = lit "pinned") with
  | true =>
    have hfalse : ¬ true = false := by decide
    refine iff_of_true ⟨fun p hp _ => ?_, fun _ _ h => absurd h hfalse,
      fun _ _ h => absurd h hfalse⟩ fun h => absurd h hfalse
    exact added_pinned hN hs hadd hpin fun c hc => hcs c (hp.subset hc)
  | false =>
    constructor
    · intro h _ hne p hp
      exact forward_of_steady hN hs hadd hlam hpin hne (fun c hc => hcs c (hp.subset hc))
        (h.initial hp)
    · intro h
      refine steady_of_due hN hs hadd hlam hpin hcs fun p hp hq => ?_
      by_cases hzero : lam = 0
      · simp [credit, due, hzero]
      · rw [credit, due, h rfl hzero p hp hq]

namespace Decay.Demo

/-- The real numbers, and vectors that hold nothing. -/
noncomputable def reals : Numerics ℝ Unit :=
  .scalars fun x => some (Numerics.onFinite (fun _ x => Real.exp x) (.finite 0) x)

theorem exact_reals : reals.ExactReal where
  toExact := Numerics.exact_scalars _
  exp _ := rfl

/-- A service with the default constants. -/
noncomputable def service : MemoryService ℝ Unit := new reals 1 ∅ 0

theorem service_lambda (kind : Str) :
    ((service.decayLambdas).get? kind).getD (.finite 0) =
      .finite (if lit "working" = kind then 1 / 86400 else if lit "episodic" = kind then
        1 / (7 * 86400) else if lit "semantic" = kind then 1 / (90 * 86400) else 0) := by
  show ((defaultLambdas reals).get? kind).getD (.finite 0) = _
  rw [Dict.get?, items_defaultLambdas]
  simp only [List.find?_cons, List.find?_nil]
  by_cases hworking : lit "working" = kind
  · simp [hworking, exact_reals.quot]
  by_cases hepisodic : lit "episodic" = kind
  · norm_num [hworking, hepisodic, exact_reals.quot]
  by_cases hsemantic : lit "semantic" = kind
  · norm_num [hworking, hepisodic, hsemantic, exact_reals.quot]
  · simp [hworking, hepisodic, hsemantic]

theorem service_reals : service.Reals where
  lambda kind := ⟨_, service_lambda kind⟩
  entries m hm := by cases hm

theorem lambda_working :
    (service.decayLambdas.get? (lit "working")).getD (.finite 0) = .finite (1 / 86400) := by
  rw [service_lambda, if_pos rfl]

def trace : Str := lit "t1"

theorem add_working :
    (service.add reals (.finite 0) trace [()] (lit "working") false none).isSome := by
  have hkind : lit "working" ∈ validKinds := by decide
  have hdim : ¬ [()].length ≠ service.dim := fun h => h rfl
  rw [add, if_neg (not_not_intro hkind), encode, if_neg hdim, Option.map_some]
  rfl

/-- Decay steps at the readings `l`. -/
def steps (l : List ℝ) : List (Live ℝ Unit) := l.map .decayStep

theorem not_adds (l : List ℝ) : ∀ c ∈ steps l, ¬ c.Adds trace := by
  intro c hc
  obtain ⟨now, -, rfl⟩ := List.mem_map.mp hc
  exact id

theorem readings_steps (l : List ℝ) : readings (steps l) = l := by
  rw [readings, steps, List.filterMap_map]
  exact List.filterMap_some

theorem readings_initial {l : List ℝ} {q : List (Live ℝ Unit)} (hq : q <+: steps l) :
    readings q <+: l := by
  have h : readings q <+: readings (steps l) := hq.filterMap _
  rwa [readings_steps] at h

/-- Two hours do not evict. -/
theorem theta_le {l : List ℝ} (hl : ∀ u ∈ l, u ≤ 7200) {q : List (Live ℝ Unit)}
    (hq : q <+: steps l) : theta ≤ due (1 / 86400) 0 q := by
  have hsub : readings q <+: l := readings_initial hq
  have hlatest : Clock.latest 0 (readings q) ≤ 7200 :=
    Clock.latest_le (by norm_num) fun u hu => hl u (hsub.subset hu)
  have hexp := Real.add_one_le_exp (-(1 / 86400) * (Clock.latest 0 (readings q) - 0))
  rw [due, theta]
  linarith

/-- An hour, a step back, and the same hour again: one hour has passed, and the weight has decayed
by two. -/
theorem twice_decayed : ∃ s',
    service.add reals (.finite 0) trace [()] (lit "working") false none = some s' ∧
      ¬ Steady reals s' trace false (1 / 86400) 0 (steps [3600, 0, 3600]) := by
  obtain ⟨s', hadd⟩ := Option.isSome_iff_exists.mp add_working
  refine ⟨s', hadd, fun h => ?_⟩
  have hforward := forward_of_steady exact_reals service_reals hadd lambda_working (by decide)
    (by norm_num) (not_adds _) h fun q hq => theta_le (by norm_num) hq
  rw [readings_steps] at hforward
  norm_num [Clock.forward, Clock.latest] at hforward

/-- Two steps, an hour each. -/
theorem twice_steady : ∃ s',
    service.add reals (.finite 0) trace [()] (lit "working") false none = some s' ∧
      Steady reals s' trace false (1 / 86400) 0 (steps [3600, 7200]) := by
  obtain ⟨s', hadd⟩ := Option.isSome_iff_exists.mp add_working
  refine ⟨s', hadd, (steady_iff exact_reals service_reals hadd lambda_working (not_adds _)).mpr
    fun _ _ p hp _ => ?_⟩
  have hsub : 0 :: readings p <+: [0, 3600, 7200] :=
    (List.prefix_cons_inj 0).mpr (readings_initial hp)
  have hsorted : [0, 3600, (7200 : ℝ)].Pairwise (· ≤ ·) := by norm_num
  exact Clock.forward_of_sorted (hsorted.sublist hsub.sublist)

end Decay.Demo
end MemoryService
end Memory
end Arcane
