import Arcane.Constitution.Agreement

/-!
# What an account may pay out

`preCheck` walks the rules, `postCheck` compares the balances with the one cap that it is handed.

* `decodeHookData_encode`: what `preCheck` hands on is what `postCheck` reads.
* `fold_caps`: of the caps that the loop meets, it hands on the last.
* `bounded_iff`: every cap binds what is paid out if and only if the last one is the smallest.
-/

namespace Arcane
namespace Constitution

open Text Evm Abi Trace

/-- The caps of the MAX_TRADE_SIZE rules, in order. -/
def caps (rules : List Rule) : List ℕ :=
  rules.filterMap fun r => if r.kind = 1 then decodeUint r.params else none

/-- Whatever the token answers before and after the call: if both checks accept, what the account
paid out is within every MAX_TRADE_SIZE rule. -/
def Bounded (adapters : Adapters) (s : State) (m : Msg) (msgData : Bytes) : Prop :=
  ∀ before after k m' hookData pre post, m'.sender = m.sender →
    before m.sender = some pre → pre < 2 ^ 256 → after m.sender = some post → post < 2 ^ 256 →
    Hook.preCheck adapters before s.registry s.hook m msgData = .ok hookData →
    Hook.postCheck after k m' hookData.encode = .ok () →
    ∀ r ∈ s.registry.rules (s.hook.constitutionOf m.sender), r.kind = 1 →
      ∀ max, decodeUint r.params = some max → pre - post ≤ max

/-- No cap is below the last one. The one exception is no outflow's size: of `2 ^ 255`, `delta`
overflows. -/
def LastLeast (caps : List ℕ) : Prop :=
  ∀ last ∈ caps.getLast?, ∀ max ∈ caps, last ≤ max ∨ (last = 2 ^ 255 ∧ max + 1 = 2 ^ 255)

instance (caps : List ℕ) : Decidable (LastLeast caps) :=
  inferInstanceAs (Decidable (∀ last ∈ caps.getLast?, ∀ max ∈ caps, _))

section Outflow

variable {adapters : Adapters} {c : Execution} {r : Rule} {rules : List Rule}
  {balanceOf : Address → Option ℕ} {s : State} {k : Hook.State} {m : Msg} {msgData : Bytes}
  {hookData : Hook.HookData} {pre post : ℕ}

theorem mem_caps {max : ℕ} :
    max ∈ caps rules ↔ ∃ r ∈ rules, r.kind = 1 ∧ decodeUint r.params = some max := by
  simp [caps, List.mem_filterMap]

theorem caps_lt {max : ℕ} (h : max ∈ caps rules) : max < 2 ^ 256 := by
  obtain ⟨r, -, -, hread⟩ := mem_caps.mp h
  exact wordAt_lt hread

theorem decodeHookData_encode (hmax : hookData.maxTradeSize < 2 ^ 256)
    (hpre : hookData.preBalance < 2 ^ 256) :
    Hook.decodeHookData hookData.encode = some hookData := by
  have hcap : wordAt hookData.encode 0 = some hookData.maxTradeSize := wordAt_word hmax
  have hbal : wordAt hookData.encode 32 = some hookData.preBalance := by
    rw [Hook.HookData.encode, wordAt_append (by rw [length_word]), length_word, Nat.sub_self,
      wordAt_word hpre]
  have hrule : boolAt hookData.encode 64 = some hookData.hasMaxTradeSizeRule := by
    rw [Hook.HookData.encode, boolAt_append (by rw [length_word]; omega), length_word,
      boolAt_append (by rw [length_word]), length_word, Nat.sub_self]
    have hread := boolAt_word (r := []) hookData.hasMaxTradeSizeRule
    rwa [List.append_nil] at hread
  rw [Hook.decodeHookData, hcap, hbal, hrule]
  rfl

/-- A MAX_TRADE_SIZE rule replaces what the loop has, any other keeps it. -/
theorem enforce_acc {acc acc' : ℕ × Bool} (h : Hook.enforce adapters c acc r = .ok acc') :
    acc' = (caps [r]).foldl (fun _ max => (max, true)) acc := by
  by_cases h1 : r.kind = 1
  · simp only [Hook.enforce, if_pos h1, bind_ok, decoded_ok, pure_ok] at h
    obtain ⟨max, hread, -, -, rfl⟩ := h
    simp [caps, h1, hread]
  · have hacc : acc' = acc := by
      simp only [Hook.enforce, if_neg h1] at h
      split_ifs at h <;> simp only [bind_ok, pure_ok] at h <;> grind
    simp [caps, h1, hacc]

theorem fold_caps {acc acc' : ℕ × Bool}
    (h : rules.foldlM (Hook.enforce adapters c) acc = .ok acc') :
    acc' = (caps rules).foldl (fun _ max => (max, true)) acc := by
  induction rules generalizing acc with
  | nil =>
    rw [List.foldlM_nil, pure_ok] at h
    rw [← h]
    rfl
  | cons r rules ih =>
    rw [List.foldlM_cons, bind_ok] at h
    obtain ⟨acc'', hr, hrules⟩ := h
    rw [ih hrules, enforce_acc hr, ← List.foldl_append, caps, caps, ← List.filterMap_append]
    rfl

theorem foldl_last (caps : List ℕ) (acc : ℕ × Bool) :
    caps.foldl (fun _ max => (max, true)) acc = (caps.getLast?.map (·, true)).getD acc := by
  induction caps using List.reverseRecOn with
  | nil => rfl
  | append_singleton caps max => simp

/-- The cap that `preCheck` hands on is the last one. -/
theorem preCheck_last
    (h : Hook.preCheck adapters balanceOf s.registry s.hook m msgData = .ok hookData) :
    (hookData.maxTradeSize, hookData.hasMaxTradeSizeRule) =
      ((caps (s.registry.rules (s.hook.constitutionOf m.sender))).getLast?.map (·, true)).getD
        (0, false) := by
  obtain ⟨-, -, -, -, c, -, hrules, -⟩ := preCheck_eq_ok.mp h
  rw [fold_caps hrules, foldl_last]

theorem preCheck_maxTradeSize {last : ℕ}
    (h : Hook.preCheck adapters balanceOf s.registry s.hook m msgData = .ok hookData)
    (hlast : (caps (s.registry.rules (s.hook.constitutionOf m.sender))).getLast? = some last) :
    hookData.maxTradeSize = last ∧ hookData.hasMaxTradeSizeRule = true := by
  have hcap := preCheck_last h
  rw [hlast] at hcap
  exact Prod.mk.inj hcap

/-- Another balance changes nothing but what is handed on of it. -/
theorem preCheck_balance
    (h : Hook.preCheck adapters balanceOf s.registry s.hook m msgData = .ok hookData)
    (pre : ℕ) :
    Hook.preCheck adapters (fun _ => some pre) s.registry s.hook m msgData =
      .ok { hookData with preBalance := pre } := by
  obtain ⟨hne, hlen, hsel, hexist, c, hc, hrules, -⟩ := preCheck_eq_ok.mp h
  exact preCheck_eq_ok.mpr ⟨hne, hlen, hsel, hexist, c, hc, hrules, rfl⟩

theorem postCheck_ok (h : Hook.decodeHookData hookData.encode = some hookData) :
    Hook.postCheck balanceOf k m hookData.encode = .ok () ↔
      k.constitutionOf m.sender ≠ 0 ∧ ∃ post, balanceOf m.sender = some post ∧
        I256.Fits (I256.cast post - I256.cast hookData.preBalance) ∧
        (hookData.hasMaxTradeSizeRule = true → post < hookData.preBalance →
          hookData.preBalance - post ≤ hookData.maxTradeSize) := by
  simp only [Hook.postCheck, bind_ok, revertIf_ok, decoded_ok, h, balance_ok, I256.sub_ok]
  constructor
  · rintro ⟨-, hne, _, ⟨⟩, post, hpost, _, ⟨hfits, rfl⟩, hcap⟩
    refine ⟨hne, post, hpost, hfits, fun hrule hlt => ?_⟩
    rwa [if_neg (by simp [hrule]), if_pos hlt, require_ok] at hcap
  · rintro ⟨hne, post, hpost, hfits, hcap⟩
    refine ⟨(), hne, _, rfl, post, hpost, _, ⟨hfits, rfl⟩, ?_⟩
    split_ifs with hrule hlt
    · rfl
    · exact require_ok.mpr (hcap (by simpa using hrule) hlt)
    · rfl

/-- `delta` overflows on an outflow of `2 ^ 255`. -/
theorem ne_of_fits (hlt : post < pre) (hpre : pre < 2 ^ 256)
    (h : I256.Fits (I256.cast post - I256.cast pre)) : pre - post ≠ 2 ^ 255 := by
  unfold I256.Fits I256.cast at h
  split_ifs at h <;> omega

/-- On any other it does not, where the account pays out all that it has. -/
theorem fits_of_ne (hpre : pre < 2 ^ 256) (h : pre ≠ 2 ^ 255) :
    I256.Fits (I256.cast 0 - I256.cast pre) := by
  unfold I256.Fits I256.cast
  split_ifs <;> omega

/-- Every cap binds what is paid out if and only if the last one is the smallest. -/
theorem bounded_iff
    (h : Hook.preCheck adapters balanceOf s.registry s.hook m msgData = .ok hookData) :
    Bounded adapters s m msgData ↔
      LastLeast (caps (s.registry.rules (s.hook.constitutionOf m.sender))) := by
  constructor
  · intro hbounded last hlast max hmax
    by_contra habove
    have hlt := caps_lt (List.mem_of_getLast? hlast)
    -- The least outflow above `max` that `delta` can hold.
    obtain ⟨out, hmaxlt, hle, hne⟩ : ∃ out, max < out ∧ out ≤ last ∧ out ≠ 2 ^ 255 := by
      by_cases hedge : max + 1 = 2 ^ 255
      · exact ⟨max + 2, by omega, by omega, by omega⟩
      · exact ⟨max + 1, by omega, by omega, hedge⟩
    have hpre := preCheck_balance h out
    obtain ⟨hcap, hrule⟩ := preCheck_maxTradeSize h hlast
    have hpost :
        Hook.postCheck (fun _ => some 0) s.hook m { hookData with preBalance := out }.encode =
        .ok () :=
      (postCheck_ok (decodeHookData_encode (hcap ▸ hlt) (hle.trans_lt hlt))).mpr
        ⟨(preCheck_eq_ok.mp h).1, 0, rfl, fits_of_ne (hle.trans_lt hlt) hne, fun _ _ => hcap ▸ hle⟩
    obtain ⟨r, hr, hkind, hparams⟩ := mem_caps.mp hmax
    have hout := hbounded _ _ _ _ _ out 0 rfl rfl (by omega) rfl (by omega) hpre hpost r hr hkind
      max hparams
    omega
  · intro hleast before after k m' hookData' pre post hsender hbefore hpre hafter hpost hok hok' r
      hr hkind max hparams
    have hmax : max ∈ caps _ := mem_caps.mpr ⟨r, hr, hkind, hparams⟩
    have hlast := List.getLast?_eq_some_getLast (List.ne_nil_of_mem hmax)
    obtain ⟨hcap, hrule⟩ := preCheck_maxTradeSize hok hlast
    obtain rfl : hookData'.preBalance = pre := by
      obtain ⟨-, -, -, -, -, -, -, hbal⟩ := preCheck_eq_ok.mp hok
      exact Option.some.inj (hbal.symm.trans hbefore)
    have hlt := caps_lt (List.mem_of_getLast? hlast)
    obtain ⟨-, post', hpost', hfits, hle⟩ :=
      (postCheck_ok (decodeHookData_encode (hcap ▸ hlt) hpre)).mp hok'
    rw [hsender, hafter] at hpost'
    obtain rfl := Option.some.inj hpost'
    by_cases hout : post < hookData'.preBalance
    · have hle := hle hrule hout
      have hne := ne_of_fits hout hpre hfits
      have hsmall := hleast _ hlast max hmax
      omega
    · omega

end Outflow

namespace Hook.Demo

/-- Two caps, the looser one last. -/
def looserLast : List Rule := [⟨1, word 10, 0⟩, ⟨1, word 100, 0⟩]

/-- The same caps, the tighter one last. -/
def tighterLast : List Rule := [⟨1, word 100, 0⟩, ⟨1, word 10, 0⟩]

/-- The hashes of the two constitutions; what else is hashed is the same. -/
def keccak256 (b : Bytes) : Bytes32 :=
  if b = word 32 ++ array (looserLast.map Rule.encode) then
    0x6249b1ddf4b8d685a098d692619f466ce12e968dc97ba2122a6e11eb7039e2d9
  else if b = word 32 ++ array (tighterLast.map Rule.encode) then
    0x6e6063beddf8e905e66f86c434b823cf56f685181eaa57aba44a29a0747f98ce
  else 1

/-- The account has installed the constitution. -/
def state (rules : List Rule) : Constitution.State := installed keccak256 rules 0xacc

/-- A message of the account. -/
def self : Msg := .of 0xacc 0

/-- A call of a venue, with no size in it. -/
def call : Execution := ⟨0x1, 0, []⟩

def adapters : Adapters := fun _ _ => .invalid

/-- With the tighter cap last, both bind. -/
theorem tighter_bounded : Bounded adapters (state tighterLast) self (executeData call) := by
  have hpre : preCheck adapters (fun _ => some 50) (state tighterLast).registry
      (state tighterLast).hook self (executeData call) = .ok ⟨10, 50, true⟩ := by decide +kernel
  exact (bounded_iff hpre).mpr (by decide +kernel)

/-- With the looser cap last, the account pays out five times the tighter one. -/
theorem looser_unbounded : ∃ tr, Run (Step keccak256) .initial tr (state looserLast) ∧
    preCheck adapters (fun _ => some 50) (state looserLast).registry (state looserLast).hook self
      (executeData call) = .ok ⟨100, 50, true⟩ ∧
    postCheck (fun _ => some 0) (state looserLast).hook self (HookData.encode ⟨100, 50, true⟩) =
      .ok () ∧
    ∃ r ∈ (state looserLast).registry.rules ((state looserLast).hook.constitutionOf self.sender),
      r.kind = 1 ∧ ∃ max, decodeUint r.params = some max ∧ max < 50 - 0 := by
  have haccepted : Accepted looserLast := ⟨by decide, by simp [looserLast, Rule.Adapted]⟩
  obtain ⟨tr, h⟩ := run_installed keccak256 haccepted self
  exact ⟨tr, h, by decide +kernel, by decide +kernel, ⟨1, word 10, 0⟩, by decide +kernel, rfl, 10,
    by decide +kernel, by decide⟩

end Hook.Demo

end Constitution
end Arcane
