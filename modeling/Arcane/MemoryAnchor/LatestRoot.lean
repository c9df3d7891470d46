import Arcane.MemoryAnchor.History

/-!
# The two views of the latest root

`latestRoot` reads the history, `rootOfIdentity` the latest record. A legacy anchor writes the
history of the identity 0 alone.

* `views_agree`: for the other identities they agree.
* `latestRoot_eq_iff`: when they agree.
-/

namespace Arcane
namespace MemoryAnchor

open Evm Abi Trace

/-- The step writes the history of `i`. -/
def recordedUnder (i : ℕ) (st : Trace.Step State Event) : Bool :=
  st.ev.call.identity.getD 0 = i

/-- The latest step that wrote the history of `i`. -/
def latestRecord (i : ℕ) (tr : List (Trace.Step State Event)) : Option (Trace.Step State Event) :=
  (tr.filter (recordedUnder i)).getLast?

variable {s s' : State} {e : Event} {tr : List (Trace.Step State Event)} {i : ℕ}

theorem latestRecord_snoc {st : Trace.Step State Event} (h : recordedUnder i st = true) :
    latestRecord i (tr ++ [st]) = some st := by
  simp [latestRecord, h]

theorem latestRecord_snoc_of_not {st : Trace.Step State Event} (h : recordedUnder i st = false) :
    latestRecord i (tr ++ [st]) = latestRecord i tr := by
  simp [latestRecord, h]

theorem latestRoot_of_history {record : AnchorRecord} (h : s'.history i = s.history i ++ [record]) :
    latestRoot s' i = record.root := by
  rw [latestRoot, h, List.getLast?_concat]

theorem latestRoot_congr (h : s'.history i = s.history i) : latestRoot s' i = latestRoot s i := by
  rw [latestRoot, latestRoot, h]

/-- A record under an identity brings both views to its root. -/
theorem views_bind (s : State) (m : Msg) (root : Bytes32) :
    latestRoot (s.bind m i root) i = root ∧ rootOfIdentity (s.bind m i root) i = root := by
  constructor
  · rw [latestRoot_of_history (push_self s.history i _)]
  · simp only [rootOfIdentity, State.bind, Function.update_self]

theorem views_bind_of_ne {identityId : ℕ} (h : i ≠ identityId) (m : Msg) (root : Bytes32) :
    latestRoot (s.bind m identityId root) i = latestRoot s i ∧
      rootOfIdentity (s.bind m identityId root) i = rootOfIdentity s i := by
  constructor
  · exact latestRoot_congr (push_of_ne h)
  · simp only [rootOfIdentity, State.bind, Function.update_of_ne h]

/-- The two views agree if and only if the latest record is bound to the identity, or is a legacy
one that repeats the root that was bound to it. -/
theorem views_agree_iff (h : Run Step .initial tr s) (i : ℕ) :
    latestRoot s i = rootOfIdentity s i ↔
      ∀ st, latestRecord i tr = some st → st.ev.call.identity = none →
        st.ev.call.root = rootOfIdentity st.pre i := by
  induction h with
  | nil => exact iff_of_true rfl fun st hst => by cases hst
  | @snoc tr s s' e hr hst ih =>
    obtain ⟨identityId, hid, -, rfl⟩ | ⟨hid, rfl⟩ := step_cases hst
    · by_cases hi : i = identityId
      · subst hi
        obtain ⟨hlatest, hroot⟩ := views_bind (i := i) s e.msg e.call.root
        rw [hlatest, hroot, latestRecord_snoc (by simp [recordedUnder, hid])]
        refine iff_of_true rfl fun st hst hnone => ?_
        cases Option.some.inj hst
        cases hid.symm.trans hnone
      · obtain ⟨hlatest, hroot⟩ := views_bind_of_ne (s := s) hi e.msg e.call.root
        rw [hlatest, hroot, latestRecord_snoc_of_not (by simp [recordedUnder, hid, Ne.symm hi])]
        exact ih
    · by_cases hi : i = 0
      · -- the legacy anchor writes the history only
        subst hi
        rw [latestRoot_of_history (push_self s.history 0 _),
          latestRecord_snoc (by simp [recordedUnder, hid])]
        constructor
        · rintro heq st hst -
          cases Option.some.inj hst
          exact heq
        · intro hall
          exact hall _ rfl hid
      · rw [latestRoot_congr (push_of_ne hi),
          latestRecord_snoc_of_not (by simp [recordedUnder, hid, Ne.symm hi])]
        exact ih

/-- A legacy anchor is not recorded under an identity other than 0. -/
theorem views_agree (h : Run Step .initial tr s) (hi : i ≠ 0) :
    latestRoot s i = rootOfIdentity s i := by
  refine (views_agree_iff h i).mpr fun st hst hnone => ?_
  have hmem := List.mem_of_getLast? hst
  have hunder := (List.mem_filter.mp hmem).2
  rw [recordedUnder, hnone] at hunder
  exact absurd (of_decide_eq_true hunder).symm hi

/-- In every reachable state the two views agree except for the identity 0 after a legacy anchor of
another root than the one that was bound to it. -/
theorem latestRoot_eq_iff (h : Run Step .initial tr s) (i : ℕ) :
    latestRoot s i = rootOfIdentity s i ↔
      i ≠ 0 ∨ ∀ st, latestRecord 0 tr = some st → st.ev.call.identity = none →
        st.ev.call.root = rootOfIdentity st.pre 0 := by
  by_cases hi : i = 0
  · subst hi
    rw [views_agree_iff h 0]
    simp
  · exact iff_of_true (views_agree h hi) (.inl hi)

namespace Demo

/-- The views of an identity that was bound twice. -/
theorem views_owners :
    latestRoot (after [first, second]) 7 = rootOfIdentity (after [first, second]) 7 :=
  (latestRoot_eq_iff run_owners 7).mpr (.inl (by decide))

/-- A legacy anchor. -/
def legacy : Event := ⟨.of 0xa 5, fun _ => none, .anchorRoot 1⟩

/-- After it the two views of the identity 0 differ. -/
theorem views_diverge : ∃ tr, Run Step .initial tr (after [legacy]) ∧
    latestRoot (after [legacy]) 0 = 1 ∧ rootOfIdentity (after [legacy]) 0 = 0 := by
  have h : Step .initial legacy (after [legacy]) := ⟨trivial, rfl⟩
  exact ⟨_, Run.nil.snoc legacy h, by decide +kernel, by decide +kernel⟩

end Demo

end MemoryAnchor
end Arcane
