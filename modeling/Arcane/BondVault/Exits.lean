import Arcane.BondVault.Solvency

/-!
# How money leaves the vault

`BondEffect C s e s' a` is what one call does to the bond of the agent `a`. The clocks of a bond
are histories: `postedAt` is the time of the agent's latest post and `lastActivityAt` the time of
the latest call that showed it alive (`History`). So an agent's bond goes to the agent itself, in
time, or is slashed (`Exit`), and a slash takes from the agent and the slasher alone (`Slashed`).
-/

namespace Arcane
namespace BondVault

open Evm
open Trace (Latest)

/-- The call is a post of the agent. -/
def Event.Posts (e : Event) (a : Address) : Prop :=
  e.msg.sender = a ∧ ∃ amount, e.call = .post amount

/-- The call shows the agent alive: its own post, or a poke that the checker confirms. -/
def Event.Refreshes (e : Event) (s : State) (a : Address) : Prop :=
  e.Posts a ∨ e.call = .pokeActivity a ∧ e.Alive s a

/-- The oracle of the time approves the agent's release. -/
def Approves (a : Address) (st : Trace.Step State Event) : Prop :=
  st.ev.call = .approveRelease a ∧ st.ev.msg.sender = st.pre.oracle

def Posts (a : Address) (st : Trace.Step State Event) : Prop := st.ev.Posts a

def Refreshes (a : Address) (st : Trace.Step State Event) : Prop := st.ev.Refreshes st.pre a

inductive BondEffect (C : Config) (s : State) (e : Event) (s' : State) (a : Address) : Prop
  | post (amount signal : ℕ) :
      e.call = .post amount → e.msg.sender = a →
      s'.bonds a = (s.bonds a).posted e.msg amount signal → BondEffect C s e s' a
  | release :
      e.call = .release → e.msg.sender = a → s.MayRelease e.msg a → (s.bonds a).balance ≠ 0 →
      (s'.bonds a).balance = 0 →
      s'.bondToken.balanceOf = Token.moved s.bondToken.balanceOf C.self a (s.bonds a).balance →
      BondEffect C s e s' a
  | slash (amount : ℕ) :
      e.call = .slash a amount → e.msg.sender = s.oracle → amount ≤ (s.bonds a).balance →
      s'.bonds a = { s.bonds a with balance := (s.bonds a).balance - amount } →
      s'.bondToken.balanceOf =
        Token.moved s.bondToken.balanceOf C.self burnAddress (2 * amount) →
      BondEffect C s e s' a
  | approve :
      e.call = .approveRelease a → e.msg.sender = s.oracle → (s.bonds a).balance ≠ 0 →
      s'.bonds a = { s.bonds a with oracleApprovedRelease := true } → BondEffect C s e s' a
  | refresh (signal : ℕ) :
      e.call = .pokeActivity a → e.Alive s a → (s.bonds a).balance ≠ 0 →
      s'.bonds a = { s.bonds a with
        lastActivitySignal := signal, lastActivityAt := e.msg.timestamp } →
      BondEffect C s e s' a
  | rescue :
      e.call = .releaseToOperator a → s.Dead e.msg a → (s.bonds a).balance ≠ 0 →
      (s'.bonds a).balance = 0 →
      s'.bondToken.balanceOf = Token.moved s.bondToken.balanceOf C.self a (s.bonds a).balance →
      BondEffect C s e s' a
  | idle : ¬ e.Refreshes s a → s'.bonds a = s.bonds a → BondEffect C s e s' a

section

variable {C : Config} {s s₀ s' : State} {e : Event} {tr : List (Trace.Step State Event)}
variable {a : Address}

/-- Both legs of a slash. -/
theorem moved_twice {t t' t'' : Token} {x y : Address} {n : ℕ} (hxy : x ≠ y)
    (h : Token.Moved t t' x y n) (h' : Token.Moved t' t'' x y n) :
    t''.balanceOf = Token.moved t.balanceOf x y (2 * n) := by
  rw [h'.balanceOf, h.balanceOf, Token.moved_moved hxy, Nat.two_mul]

/-- A call that is neither a post nor a poke shows nobody alive. -/
theorem Event.not_refreshes (hpost : ∀ n, e.call ≠ .post n)
    (hpoke : ∀ x, e.call ≠ .pokeActivity x) : ¬ e.Refreshes s a := by
  rintro (⟨-, n, h⟩ | ⟨h, -⟩)
  · exact hpost n h
  · exact hpoke a h

theorem Event.not_posts (h : ¬ e.Refreshes s a) : ¬ e.Posts a := fun hp => h (.inl hp)

theorem Effect.bond (hwf : WellFormed C s) (he : Effect C s e s') (a : Address) :
    BondEffect C s e s' a := by
  cases he with
  | post amount signal bondToken hc ht =>
    by_cases ha : a = e.msg.sender
    · subst ha
      exact .post amount signal hc rfl (Function.update_self ..)
    · refine .idle ?_ (Function.update_of_ne ha _ _)
      rintro (⟨h, -⟩ | ⟨h, -⟩)
      · exact ha h.symm
      · simp [hc] at h
  | release bondToken hc hb hready ht =>
    by_cases ha : a = e.msg.sender
    · subst ha
      exact .release hc rfl hready hb (by simp) ht.balanceOf
    · exact .idle (Event.not_refreshes (by simp [hc]) (by simp [hc]))
        (Function.update_of_ne ha _ _)
  | postCounterBond amount bondToken hc ht =>
    exact .idle (Event.not_refreshes (by simp [hc]) (by simp [hc])) rfl
  | withdrawCounterBond amount bondToken hc _ ht =>
    exact .idle (Event.not_refreshes (by simp [hc]) (by simp [hc])) rfl
  | slash agent amount between bondToken hc ho hb _ ht ht' =>
    by_cases ha : a = agent
    · subst ha
      exact .slash amount hc ho hb (Function.update_self ..) (moved_twice hwf.self_ne_burn ht ht')
    · exact .idle (Event.not_refreshes (by simp [hc]) (by simp [hc]))
        (Function.update_of_ne ha _ _)
  | approveRelease agent hc ho hb =>
    by_cases ha : a = agent
    · subst ha
      exact .approve hc ho hb (Function.update_self ..)
    · exact .idle (Event.not_refreshes (by simp [hc]) (by simp [hc]))
        (Function.update_of_ne ha _ _)
  | refresh agent signal hc hb hal =>
    by_cases ha : a = agent
    · subst ha
      exact .refresh signal hc hal hb (Function.update_self ..)
    · refine .idle ?_ (Function.update_of_ne ha _ _)
      rintro (⟨-, n, h⟩ | ⟨h, -⟩)
      · simp [hc] at h
      · rw [hc] at h
        exact ha (Call.pokeActivity.inj h).symm
  | noProgress agent hc hal =>
    refine .idle ?_ rfl
    rintro (⟨-, n, h⟩ | ⟨h, h'⟩)
    · simp [hc] at h
    · rw [hc] at h
      exact hal (Call.pokeActivity.inj h ▸ h')
  | releaseToOperator agent bondToken hc hb hdead ht =>
    by_cases ha : a = agent
    · subst ha
      rw [(hwf.funded a hb).1] at ht
      exact .rescue hc hdead hb (by simp) ht.balanceOf
    · exact .idle (Event.not_refreshes (by simp [hc]) (by simp [hc]))
        (Function.update_of_ne ha _ _)
  | admin owner paused oracle activityChecker releaseWindow livenessTimeout hc =>
    exact .idle (Event.not_refreshes (by rintro n h; simp [h, Call.admin] at hc)
      (by rintro x h; simp [h, Call.admin] at hc)) rfl
  | token op bondToken hc ht =>
    exact .idle (Event.not_refreshes (by simp [hc]) (by simp [hc])) rfl

/-! ## The clocks of a bond -/

/-- What the clocks and the approval of the bond of `a` say about the steps so far. -/
structure History (tr : List (Trace.Step State Event)) (s : State) (a : Address) : Prop where
  posted : ∃ st tr₂, Latest (Posts a) tr st tr₂ ∧ st.ev.msg.timestamp = (s.bonds a).postedAt ∧
    ((s.bonds a).oracleApprovedRelease = true → ∃ x ∈ tr₂, Approves a x)
  active : ∃ st tr₂, Latest (Refreshes a) tr st tr₂ ∧
    st.ev.msg.timestamp = (s.bonds a).lastActivityAt

/-- A call that keeps the clocks and the approval. -/
theorem History.keep (h : History tr s a) (hn : ¬ e.Refreshes s a)
    (hp : (s'.bonds a).postedAt = (s.bonds a).postedAt)
    (hact : (s'.bonds a).lastActivityAt = (s.bonds a).lastActivityAt)
    (hap : (s'.bonds a).oracleApprovedRelease = (s.bonds a).oracleApprovedRelease) :
    History (tr ++ [⟨s, e, s'⟩]) s' a := by
  obtain ⟨⟨st, tr₂, hl, ht, happ⟩, st', tr₂', hl', ht'⟩ := h
  refine ⟨⟨st, _, hl.snoc (Event.not_posts hn), ht.trans hp.symm, fun ha => ?_⟩,
    st', _, hl'.snoc hn, ht'.trans hact.symm⟩
  obtain ⟨x, hx, hxa⟩ := happ (hap ▸ ha)
  exact ⟨x, List.mem_append_left _ hx, hxa⟩

theorem History.step (h : (s.bonds a).balance ≠ 0 → History tr s a)
    (he : BondEffect C s e s' a) (hb' : (s'.bonds a).balance ≠ 0) :
    History (tr ++ [⟨s, e, s'⟩]) s' a := by
  cases he with
  | post amount signal hc hm hb =>
    have hp : e.Posts a := ⟨hm, amount, hc⟩
    refine ⟨⟨_, [], Latest.last hp, ?_, fun ha => ?_⟩, _, [], Latest.last (.inl hp), ?_⟩
    · rw [hb]; rfl
    · rw [hb] at ha; cases ha
    · rw [hb]; rfl
  | release _ _ _ _ hb _ => exact absurd hb hb'
  | slash amount hc _ hle hb _ =>
    refine (h fun hz => hb' ?_).keep (Event.not_refreshes (by simp [hc]) (by simp [hc])) ?_ ?_ ?_
    · rw [hb]; simp [hz]
    all_goals rw [hb]
  | approve hc ho hne hb =>
    have hn : ¬ e.Refreshes s a := Event.not_refreshes (by simp [hc]) (by simp [hc])
    obtain ⟨⟨st, tr₂, hl, ht, -⟩, st', tr₂', hl', ht'⟩ := h hne
    refine ⟨⟨st, _, hl.snoc (Event.not_posts hn), ?_, fun _ => ⟨⟨s, e, s'⟩, by simp, hc, ho⟩⟩,
      st', _, hl'.snoc hn, ?_⟩
    · rw [hb]; exact ht
    · rw [hb]; exact ht'
  | refresh signal hc hal hne hb =>
    obtain ⟨⟨st, tr₂, hl, ht, happ⟩, -⟩ := h hne
    refine ⟨⟨st, _, hl.snoc ?_, ?_, fun ha => ?_⟩, _, [], Latest.last (.inr ⟨hc, hal⟩), ?_⟩
    · rintro ⟨-, n, hn⟩
      simp [hc] at hn
    · rw [hb]; exact ht
    · rw [hb] at ha
      obtain ⟨x, hx, hxa⟩ := happ ha
      exact ⟨x, List.mem_append_left _ hx, hxa⟩
    · rw [hb]
  | rescue _ _ _ hb _ => exact absurd hb hb'
  | idle hn hb =>
    exact (h fun hz => hb' (by rw [hb, hz])).keep hn (by rw [hb]) (by rw [hb]) (by rw [hb])

/-- In every reachable state the clocks of a bond with money in it tell its history. -/
theorem Run.hasHistory (h₀ : Deployed C s₀) (hr : Run C s₀ tr s) :
    ∀ a, (s.bonds a).balance ≠ 0 → History tr s a := by
  refine Trace.Run.history (P := fun tr s => ∀ a, (s.bonds a).balance ≠ 0 → History tr s a) hr
    ?_ ?_
  · intro a ha
    rw [h₀.eq_initial] at ha
    exact absurd rfl ha
  · intro tr s e s' hr ih hst a ha
    exact History.step (ih a) (hst.effect.bond (Run.wellFormed (.deployed h₀) hr) a) ha

/-! ## The exits -/

/-- How a call takes money out of the bond of `a`, after the steps `tr`. -/
inductive Exit (C : Config) (tr : List (Trace.Step State Event)) (st : Trace.Step State Event)
    (a : Address) : Prop
  | released (posted : Trace.Step State Event) (tr₂ : List (Trace.Step State Event)) :
      st.ev.call = .release → st.ev.msg.sender = a → Latest (Posts a) tr posted tr₂ →
      (posted.ev.msg.timestamp + st.pre.releaseWindow ≤ st.ev.msg.timestamp ∨
        ∃ x ∈ tr₂, Approves a x) →
      (st.post.bonds a).balance = 0 →
      st.post.bondToken.balanceOf =
        Token.moved st.pre.bondToken.balanceOf C.self a (st.pre.bonds a).balance →
      Exit C tr st a
  | rescued (active : Trace.Step State Event) (tr₂ : List (Trace.Step State Event)) :
      st.ev.call = .releaseToOperator a → Latest (Refreshes a) tr active tr₂ →
      active.ev.msg.timestamp + st.pre.livenessTimeout ≤ st.ev.msg.timestamp →
      (st.post.bonds a).balance = 0 →
      st.post.bondToken.balanceOf =
        Token.moved st.pre.bondToken.balanceOf C.self a (st.pre.bonds a).balance →
      Exit C tr st a
  | slashed (amount : ℕ) :
      st.ev.call = .slash a amount →
      (st.post.bonds a).balance + amount = (st.pre.bonds a).balance →
      st.post.bondToken.balanceOf =
        Token.moved st.pre.bondToken.balanceOf C.self burnAddress (2 * amount) →
      Exit C tr st a

theorem BondEffect.exit (hh : (s.bonds a).balance ≠ 0 → History tr s a)
    (he : BondEffect C s e s' a) (hlt : (s'.bonds a).balance < (s.bonds a).balance) :
    Exit C tr ⟨s, e, s'⟩ a := by
  obtain ⟨⟨st, tr₂, hl, ht, happ⟩, st', tr₂', hl', ht'⟩ := hh (by omega)
  cases he with
  | post amount signal _ _ hb =>
    rw [hb] at hlt
    exact absurd hlt (by simp [Bond.posted])
  | release hc hm hready _ hb hbal =>
    refine .released st tr₂ hc hm hl ?_ hb hbal
    rcases hready with hw | ha
    · exact .inl (ht ▸ hw)
    · exact .inr (happ ha)
  | slash amount hc _ hle hb hbal =>
    refine .slashed amount hc ?_ hbal
    rw [hb]
    exact Nat.sub_add_cancel hle
  | approve _ _ _ hb =>
    rw [hb] at hlt
    exact absurd hlt (Nat.lt_irrefl _)
  | refresh signal _ _ _ hb =>
    rw [hb] at hlt
    exact absurd hlt (Nat.lt_irrefl _)
  | rescue hc hdead _ hb hbal => exact .rescued st' tr₂' hc hl' (ht' ▸ hdead) hb hbal
  | idle _ hb =>
    rw [hb] at hlt
    exact absurd hlt (Nat.lt_irrefl _)

/-! ## Slashes -/

/-- Everything that `a` has: its wallet, its bond and its counter-bond. -/
def State.holdings (s : State) (a : Address) : ℕ :=
  s.bondToken.balanceOf a + (s.bonds a).balance + s.counterBonds a

/-- The slash of `amount` burned that much of the agent's bond and of the slasher's counter-bond,
and did nothing else. -/
structure Slashed (C : Config) (s : State) (e : Event) (s' : State) (agent : Address)
    (amount : ℕ) : Prop where
  slasher : e.msg.sender = s.oracle
  bond : (s'.bonds agent).balance + amount = (s.bonds agent).balance
  counterBond : s'.counterBonds e.msg.sender + amount = s.counterBonds e.msg.sender
  otherBonds : ∀ a, a ≠ agent → s'.bonds a = s.bonds a
  otherCounterBonds : ∀ a, a ≠ e.msg.sender → s'.counterBonds a = s.counterBonds a
  vault : s'.bondToken.balanceOf C.self + 2 * amount = s.bondToken.balanceOf C.self
  burned : s'.bondToken.balanceOf burnAddress = s.bondToken.balanceOf burnAddress + 2 * amount
  wallets : ∀ a, a ≠ C.self → a ≠ burnAddress → s'.bondToken.balanceOf a = s.bondToken.balanceOf a

theorem Effect.slashed (hne : C.self ≠ burnAddress) (he : Effect C s e s') {agent : Address}
    {amount : ℕ} (hc : e.call = .slash agent amount) : Slashed C s e s' agent amount := by
  cases he with
  | slash agent' amount' between bondToken hc' ho hb hcb ht ht' =>
    obtain ⟨rfl, rfl⟩ := Call.slash.inj (hc.symm.trans hc')
    have hs := ht.src hne
    have hs' := ht'.src hne
    have hd := ht.dst hne
    have hd' := ht'.dst hne
    refine ⟨ho, ?_, ?_, fun a ha => Function.update_of_ne ha _ _,
      fun a ha => Function.update_of_ne ha _ _, ?_, ?_, fun a ha hbu => ?_⟩
    · simp only [Function.update_self]
      omega
    · simp only [Function.update_self]
      omega
    · dsimp only
      omega
    · dsimp only
      omega
    · exact (ht'.other ha hbu).trans (ht.other ha hbu)
  | admin owner paused oracle activityChecker releaseWindow livenessTimeout hadmin =>
    simp [hc, Call.admin] at hadmin
  | _ => simp_all

/-- The vault sends nothing to the burn address except by a slash. -/
theorem Effect.burn_eq (hwf : WellFormed C s) (hl : Legal C e.msg) (he : Effect C s e s')
    (hslash : ∀ a n, e.call ≠ .slash a n) (htoken : ∀ op, e.call ≠ .bondToken op) :
    s'.bondToken.balanceOf burnAddress = s.bondToken.balanceOf burnAddress := by
  have hself := hwf.self_ne_burn.symm
  cases he with
  | post amount signal bondToken _ ht => exact ht.other hl.2.symm hself
  | release bondToken _ _ _ ht => exact ht.other hself hl.2.symm
  | postCounterBond amount bondToken _ ht => exact ht.other hl.2.symm hself
  | withdrawCounterBond amount bondToken _ _ ht => exact ht.other hself hl.2.symm
  | slash agent amount between bondToken hc _ _ _ _ _ => exact absurd hc (hslash agent amount)
  | releaseToOperator agent bondToken _ hb _ ht =>
    obtain ⟨hop, -, hne⟩ := hwf.funded agent hb
    rw [hop] at ht
    exact ht.other hself hne.symm
  | token op bondToken hc _ => exact absurd hc (htoken op)
  | _ => rfl

/-- Nobody but the burn address gains by a slash. -/
theorem Slashed.holdings_le {agent : Address} {amount : ℕ} (h : Slashed C s e s' agent amount)
    (ha : a ≠ burnAddress) : s'.holdings a ≤ s.holdings a := by
  have hw : s'.bondToken.balanceOf a ≤ s.bondToken.balanceOf a := by
    by_cases hself : a = C.self
    · have := h.vault
      rw [hself]
      omega
    · exact (h.wallets a hself ha).le
  have hb : (s'.bonds a).balance ≤ (s.bonds a).balance := by
    by_cases hag : a = agent
    · have := h.bond
      rw [hag]
      omega
    · rw [h.otherBonds a hag]
  have hcb : s'.counterBonds a ≤ s.counterBonds a := by
    by_cases hsl : a = e.msg.sender
    · have := h.counterBond
      rw [hsl]
      omega
    · exact (h.otherCounterBonds a hsl).le
  unfold State.holdings
  omega

/-! ## The vault's guarantee -/

/-- The vault has exactly the bonds and the counter-bonds. An agent's bond leaves to the agent, in
time, or by a slash, which burns the agent's and the slasher's own money and lets nobody gain. -/
theorem bonds_conserved (h₀ : Deployed C s₀) (hempty : s₀.bondToken.balanceOf C.self = 0)
    (hdon : ∀ st ∈ tr, st.ev.donated C = 0) (hr : Run C s₀ tr s) :
    s.bondToken.balanceOf C.self = ∑ a, (s.bonds a).balance + ∑ a, s.counterBonds a ∧
      ∀ tr₁ st tr₂, tr = tr₁ ++ st :: tr₂ →
        (∀ a, (st.post.bonds a).balance < (st.pre.bonds a).balance → Exit C tr₁ st a) ∧
        ∀ agent amount, st.ev.call = .slash agent amount →
          Slashed C st.pre st.ev st.post agent amount ∧
          ∀ a, a ≠ burnAddress → st.post.holdings a ≤ st.pre.holdings a := by
  refine ⟨?_, ?_⟩
  · have hbal := Run.balance h₀ hr
    have hz : donations C tr = 0 := by
      unfold donations
      rw [List.map_congr_left hdon]
      simp
    rw [hempty, hz] at hbal
    exact hbal
  · rintro tr₁ st tr₂ rfl
    obtain ⟨hpre, hst, -⟩ := hr.split
    have hwf := Run.wellFormed (.deployed h₀) hpre
    refine ⟨fun a hlt => ?_, fun agent amount hc => ?_⟩
    · exact (hst.effect.bond hwf a).exit (Run.hasHistory h₀ hpre a) hlt
    · have hsl := hst.effect.slashed hwf.self_ne_burn hc
      exact ⟨hsl, fun a ha => hsl.holdings_le ha⟩

end

/-! ## A run -/

namespace Demo

/-- A vault of the owner `0x0E` with the oracle `0x0C`, on a token before its first mint. -/
def config : Config := ⟨0xB0, 0x3600⟩

def start : State := .initial .empty 0x0E 0x0C 50 100

theorem deployed : Deployed config start where
  self_ne := by decide
  self_ne_burn := by decide
  deploy := ⟨(.of 0x0E 0), rfl⟩
  reserved _ := rfl

/-- A call to which a checker would answer that everyone is alive. -/
def call (sender : Address) (timestamp : ℕ) (c : Call) : Event :=
  ⟨.of sender timestamp, ⟨fun _ => some 1, fun _ _ _ => some true⟩, c⟩

/-- Two agents and the oracle get 100 tokens each and approve the vault. -/
def funding : List Event :=
  [call 0xA1 0 (.bondToken (.mint 0xA1 100)), call 0xA1 0 (.bondToken (.approve 0xB0 100)),
    call 0xA2 0 (.bondToken (.mint 0xA2 100)), call 0xA2 0 (.bondToken (.approve 0xB0 100)),
    call 0x0C 0 (.bondToken (.mint 0x0C 100)), call 0x0C 0 (.bondToken (.approve 0xB0 100))]

/-- One agent is slashed and then released with approval, the other one is rescued. -/
def exits : List Event :=
  funding ++ [call 0xA1 1 (.post 60), call 0xA2 1 (.post 70), call 0x0C 2 (.postCounterBond 25),
    call 0x0C 3 (.slash 0xA1 20), call 0x0C 4 (.approveRelease 0xA1), call 0xA1 5 .release,
    call 0xE1 101 (.releaseToOperator 0xA2)]

/-- What is left in the vault is the unspent counter-bond, and the last call was a legal exit. -/
theorem exits_conserved : ∃ tr st s, Run config start (tr ++ [st]) s ∧
    s.bondToken.balanceOf config.self = 5 ∧
    ∑ a, (s.bonds a).balance + ∑ a, s.counterBonds a = 5 ∧ Exit config tr st 0xA2 := by
  have h : (play config start exits).map (fun r => (r.2.bondToken.balanceOf 0xB0,
      r.1.all fun st => st.ev.donated config = 0,
      (r.1.getLast?).map fun st => ((st.pre.bonds 0xA2).balance, (st.post.bonds 0xA2).balance))) =
      some (5, true, some (70, 0)) := by decide +kernel
  obtain ⟨r, hr, hv⟩ := Option.map_eq_some_iff.mp h
  simp only [Prod.mk.injEq, List.all_eq_true, decide_eq_true_eq] at hv
  obtain ⟨hbal, hdon, hlast⟩ := hv
  obtain ⟨st, hst, hbond⟩ := Option.map_eq_some_iff.mp hlast
  obtain ⟨hpre, hpost⟩ := Prod.mk.inj hbond
  obtain ⟨tr, htr⟩ := List.getLast?_eq_some_iff.mp hst
  have hrun : Run config start (tr ++ [st]) r.2 := htr ▸ Evm.Run.of_play hr
  obtain ⟨heq, hsteps⟩ := bonds_conserved deployed rfl (htr ▸ hdon) hrun
  exact ⟨tr, st, r.2, hrun, hbal, heq ▸ hbal, (hsteps tr st [] rfl).1 0xA2 (by omega)⟩

end Demo

end BondVault
end Arcane
