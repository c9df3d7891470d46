import Arcane.PerformanceOracle.Effect

/-!
# What stands behind an open advice

Between the recording of an advice and its resolution only the agent's side can shrink the bond
(`Step.bond_kept`): by `release`, in time or with an approval still outstanding, or by
`releaseToOperator` after the liveness deadline (`Withdraws`). While the bond covers the slash
amount, a resolution that is due and paid for succeeds, whatever its verdict
(`resolve_succeeds`). The vault does not lock a bond for an open advice, so an agent that releases
in time leaves an advice that cannot be resolved (`Demo.released_unbacked`).
-/

namespace Arcane
namespace PerformanceOracle

open Evm

/-- The agent's bond is withdrawn: by the agent when it may release, or to it when it is dead. -/
def Withdraws (st : Trace.Step State Event) (a : Address) : Prop :=
  (st.ev.call = .vault .release ∧ st.ev.msg.sender = a ∧ st.pre.vault.MayRelease st.ev.msg a) ∨
    (st.ev.call = .vault (.releaseToOperator a) ∧ st.pre.vault.Dead st.ev.msg a)

/-- The advice of the agent is open: recorded and not yet resolved. -/
structure Advice.Open (a : Advice) : Prop where
  recorded : a.exists_ = true
  unresolved : a.resolved = false

/-- The call can resolve the advice as far as the horizon, Pyth, the fee and the refund go. -/
structure Due (a : Advice) (m : Msg) (env : Env) (priceUpdate : List ByteArray) : Prop where
  elapsed : a.recordedAt.toNat + a.horizonSecs.toNat ≤ m.timestamp
  priced : ∃ fee prices p1, env.pyth.getUpdateFee priceUpdate = some fee ∧ fee ≤ m.value ∧
    env.pyth.updatePriceFeeds priceUpdate fee = some prices ∧ prices a.feedId = some p1 ∧
    p1.expo = a.expo ∧ (m.value = fee ∨ env.refundAccepted = true)

section

variable {O : Config} {s s₀ s' : State} {e : Event} {tr₁ tr₂ : List (Trace.Step State Event)}
variable {st : Trace.Step State Event} {agent : Address}

/-- A call that does not resolve the agent's advice keeps its bond, unless it withdraws it. -/
theorem Step.bond_kept (hv : BondVault.Solvent O.vault s.vault) (hO : O.Distinct)
    (hwired : s.vault.oracle = O.self) (hst : Step O s e s') (hres : ¬ e.Resolves agent) :
    (s.vault.bonds agent).balance ≤ (s'.vault.bonds agent).balance ∨
      Withdraws ⟨s, e, s'⟩ agent := by
  cases hst.effect with
  | vault c v hc hvst =>
    cases hvst.effect.bond hv.wf agent with
    | post amount signal _ _ hb =>
      left
      simp only [hb, BondVault.Bond.posted]
      omega
    | release hcall hm hready _ _ _ =>
      exact .inr (.inl ⟨by rw [hc]; exact congrArg _ hcall, hm, hready⟩)
    | slash amount _ ho _ _ _ =>
      -- only the oracle slashes, and it calls the vault in its own functions only
      exact absurd (ho.trans hwired) hst.1.2
    | approve _ _ _ hb => exact .inl (by simp only [hb]; exact le_rfl)
    | refresh signal _ _ _ hb => exact .inl (by simp only [hb]; exact le_rfl)
    | rescue hcall hdead _ _ _ =>
      exact .inr (.inr ⟨by rw [hc]; exact congrArg _ hcall, hdead⟩)
    | idle _ hb => exact .inl (by simp only [hb]; exact le_rfl)
  | record a b _ _ _ _ _ _ => exact .inl le_rfl
  | resolve a priceUpdate p1 slashed v hc _ _ _ _ hs =>
    have hne : agent ≠ a := by
      rintro rfl
      exact hres (by simp [Event.Resolves, hc])
    cases slashed with
    | true => exact .inl (by rw [(settle_slash hO hv.wf.self_ne_burn hs).otherBonds agent hne])
    | false => exact .inl (by rw [(settle_pass hs).otherBonds agent hne])

/-- An open advice is not recorded over. -/
theorem Step.open_kept (hst : Step O s e s') (hopen : (s.advice agent).Open)
    (hres : ¬ e.Resolves agent) : s'.advice agent = s.advice agent := by
  refine hst.effect.advice_eq (fun hrec => ?_) hres
  cases hst.effect with
  | vault c v hc _ => simp [Event.Records, hc] at hrec
  | record a b hb hfresh _ _ _ _ =>
    obtain rfl := hb.eq hrec
    exact hfresh ⟨hopen.recorded, hopen.unresolved⟩
  | resolve a priceUpdate p1 slashed v hc _ _ _ _ _ => simp [Event.Records, hc] at hrec

/-- The step that records an advice leaves it open and moves no bond. -/
theorem Step.records (hst : Step O s e s') (hrec : e.Records agent) :
    (s'.advice agent).Open ∧ s'.vault = s.vault := by
  cases hst.effect with
  | vault c v hc _ => simp [Event.Records, hc] at hrec
  | record a b hb _ _ hex hres _ =>
    obtain rfl := hb.eq hrec
    exact ⟨⟨by simpa using hex, by simpa using hres⟩, rfl⟩
  | resolve a priceUpdate p1 slashed v hc _ _ _ _ _ => simp [Event.Records, hc] at hrec

/-- Since it was recorded, the advice is open and the bond covers it, or was withdrawn. -/
theorem Run.backed (h₀ : Deployed O s₀) (hr : Run O s₀ (tr₁ ++ st :: tr₂) s)
    (hrec : st.ev.Records agent)
    (hback : (st.post.advice agent).slashAmount ≤ (st.pre.vault.bonds agent).balance)
    (hopen : ∀ x ∈ tr₂, ¬ x.ev.Resolves agent)
    (hwired : ∀ x ∈ tr₂, x.pre.vault.oracle = O.self) :
    s.advice agent = st.post.advice agent ∧ (s.advice agent).Open ∧
      ((s.advice agent).slashAmount ≤ (s.vault.bonds agent).balance ∨
        ∃ x ∈ tr₂, Withdraws x agent) := by
  obtain ⟨hpre, hst, hpost⟩ := hr.split
  obtain ⟨hadv, hsame⟩ := Step.records hst hrec
  have hreach : Run O s₀ (tr₁ ++ [st]) st.post := hpre.snoc st.ev hst
  have hrun := hpost.restrict (P := fun x => ¬ x.ev.Resolves agent ∧ x.pre.vault.oracle = O.self)
    fun x hx => ⟨hopen x hx, hwired x hx⟩
  suffices h : Run O s₀ ((tr₁ ++ [st]) ++ tr₂) s ∧ s.advice agent = st.post.advice agent ∧
      ((s.advice agent).slashAmount ≤ (s.vault.bonds agent).balance ∨
        ∃ x ∈ tr₂, Withdraws x agent) from ⟨h.2.1, h.2.1 ▸ hadv, h.2.2⟩
  refine hrun.history (P := fun tr s => Run O s₀ ((tr₁ ++ [st]) ++ tr) s ∧
    s.advice agent = st.post.advice agent ∧
    ((s.advice agent).slashAmount ≤ (s.vault.bonds agent).balance ∨
      ∃ x ∈ tr, Withdraws x agent)) ?_ ?_
  · exact ⟨by simpa using hreach, rfl, .inl (by rw [hsame]; exact hback)⟩
  · rintro tr s e s' - ⟨hrun, heq, hcov⟩ ⟨hst', hres, hw⟩
    have hkept := Step.open_kept hst' (heq ▸ hadv) hres
    refine ⟨by rw [← List.append_assoc]; exact hrun.snoc e hst', hkept.trans heq, ?_⟩
    rw [hkept]
    rcases hcov with hcov | ⟨x, hx, hxw⟩
    · rcases Step.bond_kept (Run.solvent h₀ hrun) h₀.distinct hw hst' hres with hb | hwd
      · exact .inl (hcov.trans hb)
      · exact .inr ⟨_, by simp, hwd⟩
    · exact .inr ⟨x, List.mem_append_left _ hx, hxw⟩

/-- A due resolution of an open advice that the bond covers succeeds. -/
theorem resolve_succeeds {m : Msg} {env : Env} {priceUpdate : List ByteArray} (hO : O.Distinct)
    (hv : BondVault.Solvent O.vault s.vault) (hok : (s.advice agent).Ok)
    (hopen : (s.advice agent).Open) (hp0 : (s.advice agent).p0 ≠ 0)
    (hwired : s.vault.oracle = O.self) (hpaused : s.vault.paused = false)
    (hcov : (s.advice agent).slashAmount ≤ (s.vault.bonds agent).balance)
    (hfunds : (s.advice agent).slashAmount ≤
      s.vault.counterBonds O.self + s.vault.bondToken.balanceOf O.self)
    (hdue : Due (s.advice agent) m env priceUpdate) :
    ∃ s', resolve O s m env agent priceUpdate = .ok s' := by
  obtain ⟨hel, fee, prices, p1, hfee, hle, hup, hp, hexpo, hrefund⟩ := hdue
  have hrec := UInt64.toNat_lt (s.advice agent).recordedAt
  have hhor := UInt64.toNat_lt (s.advice agent).horizonSecs
  obtain ⟨v, hs⟩ := settle_succeeds (m := m) hO hv hwired hpaused (hok.amount hopen.recorded) hcov
    hfunds (decide ((s.advice agent).Adverse p1))
  simp only [resolve, refundExcess, bind_ok, revertIf_ok, Bool.not_eq_false, Bool.not_eq_true,
    U256.add_ok, U256.sub_ok, Prod.exists, pushUpdate_ok, reply_ok, verdict_ok, pure_ok, not_lt]
  refine ⟨_, (), hopen.recorded, (), hopen.unresolved, _, ⟨by omega, rfl⟩, (), hel, fee, prices,
    ⟨hfee, hle, hup⟩, p1, hp, (), not_not.mpr hexpo, _, ⟨hp0, rfl⟩, v, hs, (),
    ⟨m.value - fee, ⟨hle, rfl⟩, ?_⟩, rfl⟩
  rintro ⟨hpos, hrej⟩
  rcases hrefund with hexact | hacc
  · omega
  · exact absurd (hacc.symm.trans hrej) (by decide)

/-- An advice recorded while the bond covered it stays open and covered until it is resolved,
unless its agent's bond was withdrawn since, which takes an elapsed window, an approval or a
passed deadline. As long as the bond covers an advice recorded at a price other than zero, every
due resolution succeeds. -/
theorem advice_backed (h₀ : Deployed O s₀) (hr : Run O s₀ (tr₁ ++ st :: tr₂) s)
    (hrec : st.ev.Records agent)
    (hback : (st.post.advice agent).slashAmount ≤ (st.pre.vault.bonds agent).balance)
    (hopen : ∀ x ∈ tr₂, ¬ x.ev.Resolves agent)
    (hwired : ∀ x ∈ tr₂, x.pre.vault.oracle = O.self) :
    s.advice agent = st.post.advice agent ∧
      ((s.advice agent).slashAmount ≤ (s.vault.bonds agent).balance ∨
        ∃ x ∈ tr₂, Withdraws x agent) ∧
      ((s.advice agent).slashAmount ≤ (s.vault.bonds agent).balance →
        (s.advice agent).p0 ≠ 0 → s.vault.oracle = O.self → s.vault.paused = false →
        (s.advice agent).slashAmount ≤
          s.vault.counterBonds O.self + s.vault.bondToken.balanceOf O.self →
        ∀ m env priceUpdate, Legal O m → Due (s.advice agent) m env priceUpdate →
          ∃ s', Step O s ⟨m, env, .resolve agent priceUpdate⟩ s') := by
  obtain ⟨heq, hadv, hcov⟩ := Run.backed h₀ hr hrec hback hopen hwired
  refine ⟨heq, hcov, fun hb hp0 hw hp hfunds m env priceUpdate hl hdue => ?_⟩
  obtain ⟨s', hs⟩ := resolve_succeeds h₀.distinct (Run.solvent h₀ hr) (Run.adviceOk h₀ hr agent)
    hadv hp0 hw hp hb hfunds hdue
  exact ⟨s', hl, hs⟩

end

/-! ## Runs -/

namespace Demo

theorem self_ne : (0x0C : Address) ≠ 0 := by decide

/-- An oracle `0x0C` with recorder `0xBEEF` over a vault `0xB0`. -/
def config : Config where
  self := 0x0C
  pyth := 0x2880
  vault := ⟨0xB0, 0x3600⟩
  recorder := 0xBEEF
  self_ne := self_ne

/-- The vault has a release window of 50 seconds and a liveness timeout of 100. -/
def start : State := ⟨.initial .empty 0x0E 0x0C 50 100, fun _ => Advice.empty⟩

theorem deployed : Deployed config start where
  vault := ⟨by decide, by decide, ⟨(.of 0x0E 0), rfl⟩, fun _ => rfl⟩
  deploy := rfl
  self_ne_vault := by decide
  self_ne_burn := by decide

/-- What the outside contracts do while Pyth, for a fee of 1, answers every feed with `price`. -/
def env (price : Int64) : Env where
  pyth := ⟨fun _ => some 1, fun _ _ => some fun _ => some ⟨price, 0, -8⟩⟩
  checker := ⟨fun _ => some 1, fun _ _ _ => some true⟩
  refundAccepted := true

/-- A call that pays 1, while the price is `price`. -/
def call (sender : Address) (timestamp : ℕ) (price : Int64) (c : Call) : Event :=
  ⟨.of sender timestamp 1, env price, c⟩

/-- An agent and the oracle get 100 tokens, the agent posts 60, and the recorder records an advice
with 20 to slash at the price `p0`. -/
def recorded (p0 : Int64) : List Event :=
  [call 0xA1 0 0 (.vault (.bondToken (.mint 0xA1 100))),
    call 0xA1 0 0 (.vault (.bondToken (.approve 0xB0 100))),
    call 0xE1 0 0 (.vault (.bondToken (.mint 0x0C 100))),
    call 0xA1 1 0 (.vault (.post 60)),
    call 0xBEEF 2 p0 (.recordAdvice 0xA1 7 1 60 100 20 [])]

/-- The recorded advice. -/
def advice (p0 : Int64) : Advice := ⟨7, 1, p0, -8, 0, 2, 60, 100, 20, true, false, false⟩

theorem advice_due (p0 price : Int64) : Due (advice p0) (.of 0xE1 62 1)
    (env price) [] where
  elapsed := le_rfl
  priced := ⟨1, _, ⟨price, 0, -8⟩, rfl, le_rfl, rfl, rfl, rfl, .inl rfl⟩

/-- What the runs below evaluate: whether the fifth step records, the amount and the bond then,
whether the oracle stays and nothing is resolved after it, and the end. -/
structure Summary where
  records : Bool
  amount : ℕ
  bond : ℕ
  open_ : Bool
  advice : Advice
  left : ℕ
  funds : ℕ
  paused : Bool
  oracle : Address
  deriving DecidableEq

def summary (r : List (Trace.Step State Event) × State) : Option Summary :=
  (r.1[4]?).map fun st => {
    records := st.ev.Records 0xA1
    amount := (st.post.advice 0xA1).slashAmount
    bond := (st.pre.vault.bonds 0xA1).balance
    open_ := (r.1.drop 5).all fun x => ¬ x.ev.Resolves 0xA1 ∧ x.pre.vault.oracle = config.self
    advice := r.2.advice 0xA1
    left := (r.2.vault.bonds 0xA1).balance
    funds := r.2.vault.bondToken.balanceOf config.self
    paused := r.2.vault.paused
    oracle := r.2.vault.oracle }

/-- While the bond stays, the advice can be resolved. -/
theorem kept_resolves : ∃ tr s s', Run config start tr s ∧ s.advice 0xA1 = advice 1000 ∧
    Step config s (call 0xE1 62 900 (.resolve 0xA1 [])) s' := by
  have h : (play config start (recorded 1000 ++
      [call 0xA1 40 0 (.vault (.bondToken (.transfer 0xA2 5)))])).bind summary =
      some ⟨true, 20, 60, true, advice 1000, 60, 100, false, 0x0C⟩ := by decide +kernel
  obtain ⟨r, hr, hv⟩ := Option.bind_eq_some_iff.mp h
  simp only [summary, Option.map_eq_some_iff, Summary.mk.injEq, decide_eq_true_eq,
    List.all_eq_true] at hv
  obtain ⟨st, hst, hrec, hamount, hbond, hafter, hadv, hleft, hfunds, hp, hw⟩ := hv
  have hrun : Run config start (r.1.take 4 ++ st :: r.1.drop 5) r.2 :=
    Trace.cut hst ▸ Evm.Run.of_play hr
  have hres := (advice_backed deployed hrun hrec (by omega) (fun x hx => (hafter x hx).1)
    (fun x hx => (hafter x hx).2)).2.2
  rw [hadv, hleft, hfunds] at hres
  obtain ⟨s', hs'⟩ := hres (by decide) (by decide) hw hp
    ((by decide : 20 ≤ 100).trans (Nat.le_add_left _ _)) (.of 0xE1 62 1)
    (env 900) [] (by decide) (advice_due 1000 900)
  exact ⟨_, r.2, s', hrun, hadv, hs'⟩

/-- The agent's advice was recorded while its bond covered it and was not resolved since, with the
oracle wired and the vault not paused. -/
def Waiting (s : State) : Prop :=
  ∃ tr₁ st tr₂, Run config start (tr₁ ++ st :: tr₂) s ∧ st.ev.Records 0xA1 ∧
    (st.post.advice 0xA1).slashAmount ≤ (st.pre.vault.bonds 0xA1).balance ∧
    (∀ x ∈ tr₂, ¬ x.ev.Resolves 0xA1 ∧ x.pre.vault.oracle = config.self) ∧
    s.vault.oracle = config.self ∧ s.vault.paused = false

/-- A due resolution at `price`, with enough money in the oracle, reverts. -/
def Refused (s : State) (price : Int64) : Prop :=
  Due (s.advice 0xA1) (.of 0xE1 62 1) (env price) [] ∧
    (s.advice 0xA1).slashAmount ≤ s.vault.bondToken.balanceOf config.self ∧
    ∀ s', ¬ Step config s (call 0xE1 62 price (.resolve 0xA1 [])) s'

section

variable {r : List (Trace.Step State Event) × State} {calls : List Event} {p0 price : Int64}
variable {left : ℕ}

theorem Waiting.of_summary (hr : play config start calls = some r)
    (hv : summary r = some ⟨true, 20, 60, true, advice p0, left, 100, false, 0x0C⟩) :
    Waiting r.2 := by
  simp only [summary, Option.map_eq_some_iff, Summary.mk.injEq, decide_eq_true_eq,
    List.all_eq_true] at hv
  obtain ⟨st, hst, hrec, hamount, hbond, hafter, -, -, -, hp, hw⟩ := hv
  exact ⟨_, st, _, Trace.cut hst ▸ Evm.Run.of_play hr, hrec, by omega, hafter, hw, hp⟩

theorem end_of_summary
    (hv : summary r = some ⟨true, 20, 60, true, advice p0, left, 100, false, 0x0C⟩) :
    r.2.advice 0xA1 = advice p0 ∧ (r.2.vault.bonds 0xA1).balance = left ∧
      r.2.vault.bondToken.balanceOf config.self = 100 := by
  simp only [summary, Option.map_eq_some_iff, Summary.mk.injEq] at hv
  obtain ⟨st, -, -, -, -, -, hadv, hleft, hfunds, -, -⟩ := hv
  exact ⟨hadv, hleft, hfunds⟩

theorem Refused.of_summary
    (hv : summary r = some ⟨true, 20, 60, true, advice p0, left, 100, false, 0x0C⟩)
    (hex : (exec config r.2 (call 0xE1 62 price (.resolve 0xA1 []))).isOk = false) :
    Refused r.2 price := by
  obtain ⟨hadv, -, hfunds⟩ := end_of_summary hv
  refine ⟨hadv ▸ advice_due p0 price, ?_, fun s' hs => ?_⟩
  · rw [hadv, hfunds]
    exact (by decide : 20 ≤ 100)
  · rw [hs.2] at hex
    cases hex

end

/-- An agent that releases in time leaves an open advice without a bond: no verdict on it can be
settled. Nor can an advice recorded at the price zero be resolved, with all of its bond there. -/
theorem released_unbacked : Deployed config start ∧
    (∃ s, Waiting s ∧ (s.vault.bonds 0xA1).balance < (s.advice 0xA1).slashAmount ∧
      Refused s 900 ∧ Refused s 1100) ∧
    ∃ s, Waiting s ∧ (s.advice 0xA1).slashAmount ≤ (s.vault.bonds 0xA1).balance ∧
      Refused s 900 := by
  refine ⟨deployed, ?_, ?_⟩
  · have h : (play config start (recorded 1000 ++ [call 0xA1 51 0 (.vault .release)])).bind
        (fun r => (summary r).map fun x => (x,
          (exec config r.2 (call 0xE1 62 900 (.resolve 0xA1 []))).isOk,
          (exec config r.2 (call 0xE1 62 1100 (.resolve 0xA1 []))).isOk)) =
        some (⟨true, 20, 60, true, advice 1000, 0, 100, false, 0x0C⟩, false, false) := by
      decide +kernel
    obtain ⟨r, hr, hv⟩ := Option.bind_eq_some_iff.mp h
    obtain ⟨x, hx, hv⟩ := Option.map_eq_some_iff.mp hv
    simp only [Prod.mk.injEq] at hv
    obtain ⟨rfl, h₁, h₂⟩ := hv
    obtain ⟨hadv, hleft, -⟩ := end_of_summary hx
    refine ⟨r.2, .of_summary hr hx, ?_, .of_summary hx h₁, .of_summary hx h₂⟩
    rw [hadv, hleft]
    decide
  · have h : (play config start (recorded 0)).bind (fun r => (summary r).map fun x =>
        (x, (exec config r.2 (call 0xE1 62 900 (.resolve 0xA1 []))).isOk)) =
        some (⟨true, 20, 60, true, advice 0, 60, 100, false, 0x0C⟩, false) := by
      decide +kernel
    obtain ⟨r, hr, hv⟩ := Option.bind_eq_some_iff.mp h
    obtain ⟨x, hx, hv⟩ := Option.map_eq_some_iff.mp hv
    obtain ⟨rfl, h₁⟩ := Prod.mk.inj hv
    obtain ⟨hadv, hleft, -⟩ := end_of_summary hx
    refine ⟨r.2, .of_summary hr hx, ?_, .of_summary hx h₁⟩
    rw [hadv, hleft]
    decide

end Demo

end PerformanceOracle
end Arcane
