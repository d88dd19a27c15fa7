import FastapiBoilerplate.DistributedLock.Exclusion
import FastapiBoilerplate.DistributedLock.Lock

/-!
# A block that ends normally was exclusive

For any backend that keeps to the protocol (`Contract`), whatever the renewer is told and however
the block, the renewer and the other holders interleave. `__aexit__` decides from a flag the
renewer sets and from the store's answer to the release; what makes the decision right is that a
lease the store could still take back was live all along.

A lease can be lost in two ways, by lapsing and by a grant of its name to somebody else, and a
release that is answered `RELEASED` rules out both (`exclusive_of_released`). So the invariant says
nothing of what the renewer has been told: only whose lease the block has, and that the blocks
which are over were judged rightly (`Kept`).
-/

namespace DistributedLock

open Lib List Option
open Fencing (Live Lawful granted)

/-! ## The protocol -/

/-- The answer is about what was asked: the lease of an acquisition is on the name and for the
    owner, a renewed lease has the name and the token of the one it renews. -/
def Exchange.Fits (x : Exchange) : Prop :=
  match x.call, x.answer with
  | .acquire name owner _, .acquired (some lease) => lease.name = name ∧ lease.owner = owner
  | .extend lease _, .extended (some renewed) =>
    renewed.name = lease.name ∧ renewed.token = lease.token
  | _, _ => True

/-- What the `LockBackend` protocol asks of a backend, seen from its callers: mutual exclusion with
    increasing tokens, and renewals and releases only of the live lease. -/
structure Contract (history : List Exchange) : Prop where
  fits : ∀ x ∈ history, x.Fits
  lawful : Lawful (events history)

theorem Contract.of_append {history later : List Exchange} (h : Contract (history ++ later)) :
    Contract history where
  fits x hx := h.fits x (mem_append_left _ hx)
  lawful := by
    have hlawful := h.lawful
    rw [events, map_append] at hlawful
    exact hlawful.of_append

/-! ### The in-memory backend keeps to it -/

theorem Memory.serve_fits (m : Memory) (call : Call) (now now' deadline : Time) :
    Exchange.Fits ⟨call, (m.serve now now' call).2, now, deadline⟩ := by
  cases call with
  | acquire name owner ttlSeconds =>
    cases hvalid : validateLockName name with
    | error => simp [serve, acquire, hvalid, Exchange.Fits]
    | ok =>
      rcases m.acquire_cases hvalid owner ttlSeconds now now' with
        ⟨_, -, -, hserve⟩ | ⟨_, _, -, -, hserve⟩ <;> simp [serve, hserve, Exchange.Fits]
  | extend lease =>
    rcases m.owner_cases lease now with
      ⟨_, -, -, -, hext, -⟩ | ⟨_, -, -, -, hext, -⟩ | ⟨_, -, hext, -⟩ <;>
      simp [serve, hext, Exchange.Fits, Lease.renewedFor]
  | release => trivial
  | inspect => trivial
  | clear => trivial

theorem Memory.contract_of_run {t : Time} {s : Memory.Sys}
    (h : Run Memory.Sys.step Always { clock := t } s) : Contract s.history where
  lawful := (Memory.kept_of_run h).lawful
  fits := by
    have hexchange : ∀ {s : Memory.Sys} (call : Call) (now now' : Time),
        (∀ x ∈ s.history, x.Fits) → ∀ x ∈ (s.exchange call now now').history, x.Fits := by
      intro s call now now' hs
      exact forall_mem_snoc hs (s.memory.serve_fits call now now' _)
    apply h.invariant
    · intro s s' a hs _ hstep
      cases a with
      | clear =>
        cases hstep
        exact hexchange _ _ _ hs
      | call =>
        simp only [Memory.Sys.step] at hstep
        obtain ⟨-, hstep⟩ := ite_none_right_eq_some.mp hstep
        obtain ⟨call, -, rfl⟩ := map_eq_some_iff.mp hstep
        exact hexchange _ _ _ hs
    · exact forall_mem_nil _

/-! ## What a lease can suffer -/

/-- The lease was not live at some moment after its grant at `since` and up to the release at `r`:
    it had run out, or was gone, when the exchange at `i` was served. -/
def Lapsed (history : List Exchange) (name : Text) (token : ℤ) (since r : ℕ) : Prop :=
  ∃ i x, since < i ∧ i ≤ r ∧ history[i]? = some x ∧
    ¬ Live (events (history.take i)) name token x.time

/-- The name was granted to somebody between `since` and `r`. -/
def Intruded (history : List Exchange) (name : Text) (since r : ℕ) : Prop :=
  ∃ i x lease, since < i ∧ i < r ∧ history[i]? = some x ∧ x.acquired = some lease ∧
    lease.name = name

theorem events_take (history : List Exchange) (i : ℕ) :
    events (history.take i) = (events history).take i := map_take

theorem getElem?_events {history : List Exchange} {i : ℕ} {x : Exchange} (h : history[i]? = some x)
    : (events history)[i]? = some x.event := by
  rw [events, getElem?_map, h, map_some]

section Released

variable {history : List Exchange} {since r : ℕ} {x y : Exchange} {first lease : Lease}

/-- A lease that the store took back had neither lapsed nor been granted over. -/
theorem exclusive_of_released (h : Lawful (events history)) (hx : history[since]? = some x)
    (hfirst : x.acquired = some first) (hname : first.name = lease.name)
    (htoken : first.token = lease.token) (hy : history[r]? = some y)
    (hcall : y.call = .release lease) (hanswer : y.answer = .released .released) :
    ¬ Lapsed history lease.name lease.token since r ∧
      ¬ Intruded history lease.name since r := by
  have hback : y.event.act = .takeBack lease.name lease.token := by
    rw [Exchange.event, hcall, hanswer]
    rfl
  have hend : Live ((events history).take r) lease.name lease.token y.event.time :=
    (h.allowed_take (getElem?_events hy)).takenBack _ _ hback
  have hlive : ∀ i z, since < i → i ≤ r → history[i]? = some z →
      Live ((events history).take i) lease.name lease.token z.event.time := by
    intro i z hsince hir hz
    have hmem : x.event ∈ (events history).take i := by
      refine mem_of_getElem? (i := since) ?_
      rw [getElem?_take_of_lt hsince]
      exact getElem?_events hx
    have hgranted : ⟨lease.name, lease.token, x.deadline⟩ ∈ granted ((events history).take i) := by
      refine mem_filterMap.mpr ⟨x.event, hmem, ?_⟩
      rw [Exchange.event_of_acquired hfirst, hname, htoken]
      rfl
    exact h.live_take hgranted (getElem?_events hz) (getElem?_events hy) hir hend
  constructor
  · rintro ⟨i, z, hsince, hir, hz, hdead⟩
    rw [events_take] at hdead
    exact hdead (hlive i z hsince hir hz)
  · rintro ⟨i, z, other, hsince, hir, hz, hother, hsame⟩
    obtain ⟨w, hw, hwname, -, hlt⟩ := hlive i z hsince (Nat.le_of_lt hir) hz
    -- the intruder's grant found the name free
    have hfree := (h.allowed_take (getElem?_events hz)).free _
      (congrArg Fencing.Event.act (Exchange.event_of_acquired hother)) w hw
      (hwname.trans hsame.symm)
    exact absurd hfree (not_le.mpr hlt)

end Released

namespace Lock

variable {cfg : Config} {s s' : Sys} {history : List Exchange} {x : Exchange} {since r : ℕ}
  {lease : Lease} {b : Block} {failed : Bool} {name : Text}

/-! ## What a block knows of its lease -/

/-- `lease` is the one granted at `since`, or a renewal of it. -/
def Holds (cfg : Config) (history : List Exchange) (since : ℕ) (lease : Lease) : Prop :=
  lease.name = cfg.name ∧ ∃ x first, history[since]? = some x ∧ x.acquired = some first ∧
    first.name = cfg.name ∧ first.token = lease.token

/-- The store answered the release of `lease` at `r`. -/
def Answered (history : List Exchange) (since r : ℕ) (lease : Lease) (outcome : ReleaseOutcome) :
    Prop :=
  since < r ∧ ∃ x, history[r]? = some x ∧ x.call = .release lease ∧ x.answer = .released outcome

theorem Holds.snoc (h : Holds cfg history since lease) (x : Exchange) :
    Holds cfg (history ++ [x]) since lease := by
  obtain ⟨hname, y, first, hy, hfirst⟩ := h
  exact ⟨hname, y, first, getElem?_append_of hy, hfirst⟩

theorem Answered.snoc {outcome : ReleaseOutcome} (h : Answered history since r lease outcome)
    (x : Exchange) : Answered (history ++ [x]) since r lease outcome := by
  obtain ⟨hlt, y, hy, hanswer⟩ := h
  exact ⟨hlt, y, getElem?_append_of hy, hanswer⟩

theorem lapsed_snoc {token : ℤ} (hr : r < history.length) :
    Lapsed (history ++ [x]) name token since r → Lapsed history name token since r := by
  rintro ⟨i, y, hsince, hir, hy, hdead⟩
  rw [getElem?_append_left (by omega)] at hy
  rw [take_append_of_le_length (by omega)] at hdead
  exact ⟨i, y, hsince, hir, hy, hdead⟩

theorem intruded_snoc (hr : r < history.length) :
    Intruded (history ++ [x]) name since r → Intruded history name since r := by
  rintro ⟨i, y, other, hsince, hir, hy, hother⟩
  rw [getElem?_append_left (by omega)] at hy
  exact ⟨i, y, other, hsince, hir, hy, hother⟩

/-- A block that has ended was judged rightly. -/
structure Judged (cfg : Config) (history : List Exchange) (b : Block) : Prop where
  acquired : ∃ x lease, history[b.since]? = some x ∧ x.acquired = some lease ∧
    lease.name = cfg.name ∧ lease.token = b.token
  answered : ∀ r, b.released = some r → b.since < r ∧ r < history.length
  exclusive : ∀ r, b.released = some r → b.ending = .returned →
    ¬ Lapsed history cfg.name b.token b.since r ∧ ¬ Intruded history cfg.name b.since r
  reported : b.failed = false →
    (∃ r, b.released = some r ∧ Lapsed history cfg.name b.token b.since r) ∨
      .refused ∈ b.renewals →
    ∃ error, b.ending = .lockLost error

theorem Judged.snoc (h : Judged cfg history b) (x : Exchange) : Judged cfg (history ++ [x]) b where
  acquired := by
    obtain ⟨y, lease, hy, hlease⟩ := h.acquired
    exact ⟨y, lease, getElem?_append_of hy, hlease⟩
  answered r hr := by
    obtain ⟨hsince, hlt⟩ := h.answered r hr
    exact ⟨hsince, by rw [length_append]; omega⟩
  exclusive r hr hend := by
    have hlt := (h.answered r hr).2
    obtain ⟨hlapsed, hintruded⟩ := h.exclusive r hr hend
    exact ⟨fun hl => hlapsed (lapsed_snoc hlt hl), fun hi => hintruded (intruded_snoc hlt hi)⟩
  reported hfailed hwhy := by
    refine h.reported hfailed (hwhy.imp ?_ id)
    rintro ⟨r, hr, hl⟩
    exact ⟨r, hr, lapsed_snoc (h.answered r hr).2 hl⟩

/-! ## The invariant -/

/-- The renewer works on the block's lease. -/
def RenewerFits (cfg : Config) (s : Sys) : Prop :=
  ∀ lease reply, s.renewer = some (.extending lease reply) →
    Holds cfg s.history s.since lease ∧
    ∀ renewed, reply = some (some renewed) → Holds cfg s.history s.since renewed

/-- `_lost` says whether a renewal was refused. -/
def FlagFits (s : Sys) : Prop := s.lost = true ↔ .refused ∈ s.renewals

/-- What holds in each phase. -/
def PhaseFits (cfg : Config) (s : Sys) : Prop :=
  match s.phase with
  | .outside | .entryFailed _ | .inspecting _ => s.lease = none ∧ s.renewer = none
  | .acquiring _ _ reply => (s.lease = none ∧ s.renewer = none) ∧
    ∀ lease, reply = some (some lease) → Holds cfg s.history s.since lease
  | .inside => (∃ lease, s.lease = some lease ∧ Holds cfg s.history s.since lease) ∧
    RenewerFits cfg s ∧ FlagFits s
  | .stopping _ => (∃ lease, s.lease = some lease ∧ Holds cfg s.history s.since lease) ∧
    s.renewer = none ∧ FlagFits s
  | .releasing _ lease reply => (s.lease = none ∧ s.renewer = none) ∧ FlagFits s ∧
    Holds cfg s.history s.since lease ∧
    ∀ outcome, reply = some outcome → Answered s.history s.since s.releasedAt lease outcome

structure Kept (cfg : Config) (s : Sys) : Prop where
  contract : Contract s.history
  phase : PhaseFits cfg s
  blocks : ∀ b ∈ s.blocks, Judged cfg s.history b

theorem PhaseFits.snoc (h : PhaseFits cfg s) (x : Exchange) :
    PhaseFits cfg { s with history := s.history ++ [x] } := by
  have hrenewer : RenewerFits cfg s → RenewerFits cfg { s with history := s.history ++ [x] } :=
    fun h lease reply hr => ⟨(h lease reply hr).1.snoc x, fun renewed hreply =>
      ((h lease reply hr).2 renewed hreply).snoc x⟩
  obtain ⟨hist, phase, lease, renewer, lost, since, releasedAt, renewals, blocks⟩ := s
  cases phase with
  | acquiring =>
    exact ⟨h.1, fun lease hreply => (h.2 lease hreply).snoc x⟩
  | inside =>
    obtain ⟨⟨lease, hlease, hholds⟩, hr, hflag⟩ := h
    exact ⟨⟨lease, hlease, hholds.snoc x⟩, hrenewer hr, hflag⟩
  | stopping =>
    obtain ⟨⟨lease, hlease, hholds⟩, hr, hflag⟩ := h
    exact ⟨⟨lease, hlease, hholds.snoc x⟩, hr, hflag⟩
  | releasing =>
    obtain ⟨hnone, hflag, hholds, hanswer⟩ := h
    exact ⟨hnone, hflag, hholds.snoc x, fun outcome ho => (hanswer outcome ho).snoc x⟩
  | _ => exact h

/-- The block ends; the verdict is right. -/
theorem Kept.left (h : Kept cfg s) {outcome : Option ReleaseOutcome} (hflag : FlagFits s)
    (hholds : Holds cfg s.history s.since lease) (hnone : s.lease = none ∧ s.renewer = none)
    (hanswer : ∀ o, outcome = some o → Answered s.history s.since s.releasedAt lease o) :
    Kept cfg (s.left cfg failed lease outcome) where
  contract := h.contract
  phase := hnone
  blocks := by
    intro b hb
    rcases mem_snoc.mp hb with hb | rfl
    · exact h.blocks b hb
    obtain ⟨hname, x, first, hx, hfirst, hfname, htoken⟩ := hholds
    -- `RELEASED` means that the lease was live and alone
    have hsound : outcome = some .released →
        ¬ Lapsed s.history cfg.name lease.token s.since s.releasedAt ∧
          ¬ Intruded s.history cfg.name s.since s.releasedAt := by
      intro ho
      obtain ⟨-, y, hy, hcall, hans⟩ := hanswer _ ho
      rw [← hname]
      exact exclusive_of_released h.contract.lawful hx hfirst (hfname.trans hname.symm) htoken hy
        hcall hans
    have hreleased : ∀ r, (outcome.map fun _ => s.releasedAt) = some r →
        r = s.releasedAt ∧ ∃ o, outcome = some o := by
      intro r hr
      obtain ⟨o, ho, rfl⟩ := map_eq_some_iff.mp hr
      exact ⟨rfl, o, ho⟩
    constructor
    case acquired => exact ⟨x, first, hx, hfirst, hfname, htoken⟩
    case answered =>
      intro r hr
      obtain ⟨rfl, o, ho⟩ := hreleased r hr
      obtain ⟨hlt, y, hy, -⟩ := hanswer o ho
      exact ⟨hlt, lt_of_getElem? hy⟩
    case exclusive =>
      intro r hr hend
      obtain ⟨rfl, o, rfl⟩ := hreleased r hr
      cases o with
      | released => exact hsound rfl
      | expired | notOwner => cases failed <;> simp [verdict] at hend
    case reported =>
      rintro hfailed hwhy
      obtain rfl : failed = false := hfailed
      have hlost : (s.lost || outcome.any fun o => o ≠ .released) = true := by
        rcases hwhy with ⟨r, hr, hl⟩ | hrefused
        · obtain ⟨rfl, o, rfl⟩ := hreleased r hr
          cases o with
          | released => exact absurd hl (hsound rfl).1
          | expired => simp
          | notOwner => simp
        · simp [hflag.mpr hrefused]
      exact ⟨_, by simp only [verdict, hlost]; rfl⟩

theorem Kept.release (h : Kept cfg s)
    (hlease : ∃ lease, s.lease = some lease ∧ Holds cfg s.history s.since lease)
    (hnone : s.renewer = none) (hflag : FlagFits s) (hstep : s.release failed = some s') :
    Kept cfg s' := by
  obtain ⟨lease, hsome, hholds⟩ := hlease
  rw [Sys.release, hsome, map_some, some.injEq] at hstep
  subst hstep
  exact ⟨h.contract, ⟨⟨rfl, hnone⟩, hflag, hholds, nofun⟩, h.blocks⟩

/-- Whoever answers `backend`'s requests, what is answered is one of its histories. -/
def Answers (backend : List Exchange → Prop) (s : Sys) (a : Action) : Prop :=
  ∀ x, a.exchange = some x → backend (s.history ++ [x])

theorem step_kept {a : Action} (h : Kept cfg s)
    (hcontract : ∀ x, a.exchange = some x → Contract (s.history ++ [x]))
    (hstep : s.step cfg a = some s') : Kept cfg s' := by
  have hblocks : ∀ x, ∀ b ∈ s.blocks, Judged cfg (s.history ++ [x]) b :=
    fun x b hb => (h.blocks b hb).snoc x
  -- With the phase in the state, what it asks for is what the step's case finds.
  obtain ⟨history, phase, lease, renewer, lost, since, releasedAt, renewals, blocks⟩ := s
  cases a with simp only [Sys.step] at hstep
  | others x =>
    cases hstep
    exact ⟨hcontract x rfl, h.phase.snoc x, hblocks x⟩
  | enter =>
    obtain ⟨hout, hstep⟩ := ite_none_right_eq_some.mp hstep
    obtain ⟨rfl, hnone⟩ : lease = none ∧ renewer = none := by
      cases phase <;> simp [Phase.out] at hout <;> exact h.phase
    cases hstep
    exact ⟨h.contract, ⟨⟨rfl, hnone⟩, (by intros; contradiction)⟩, h.blocks⟩
  | acquireServed x =>
    split at hstep
    case h_2 => cases hstep
    rename_i reply hanswer
    obtain ⟨hcall, ⟨⟩⟩ := ite_none_right_eq_some.mp hstep
    refine ⟨hcontract x rfl, ⟨h.phase.1, ?_⟩, hblocks x⟩
    rintro lease he
    obtain rfl : reply = some lease := some.inj he
    have hfits := (hcontract x rfl).fits x (by simp)
    rw [Exchange.Fits, hcall, hanswer] at hfits
    exact ⟨hfits.1, x, lease, getElem?_concat_length,
      by rw [Exchange.acquired, hanswer], hfits.1, rfl⟩
  | acquireReply =>
    split at hstep
    case h_1 lease =>
      cases hstep
      refine ⟨h.contract, ⟨⟨lease, rfl, h.phase.2 lease rfl⟩, ?_, ?_⟩, h.blocks⟩
      · intro lease' reply hr
        cases hi : cfg.renewInterval <;> simp [Sys.entered, hi] at hr
      · simp [FlagFits, Sys.entered]
    case h_2 =>
      cases hstep
      unfold Sys.contended
      dsimp only
      split
      · exact ⟨h.contract, h.phase.1, h.blocks⟩
      · exact ⟨h.contract, ⟨h.phase.1, (by intros; contradiction)⟩, h.blocks⟩
    case h_3 => cases hstep
  | acquireFailed =>
    split at hstep
    case h_2 => cases hstep
    cases hstep
    exact ⟨h.contract, h.phase.1, h.blocks⟩
  | inspectReply x =>
    split at hstep
    case h_2 => cases hstep
    obtain ⟨-, ⟨⟩⟩ := ite_none_right_eq_some.mp hstep
    exact ⟨hcontract x rfl, h.phase, hblocks x⟩
  | inspectFailed =>
    split at hstep
    case h_2 => cases hstep
    cases hstep
    exact ⟨h.contract, h.phase, h.blocks⟩
  | renewerWakes =>
    split at hstep
    case h_2 => cases hstep
    cases hstep
    obtain ⟨⟨lease, rfl, hholds⟩, -, hflag⟩ := h.phase
    refine ⟨h.contract, ⟨⟨lease, rfl, hholds⟩, ?_, hflag⟩, h.blocks⟩
    rintro lease' reply ⟨⟩
    exact ⟨hholds, (by intros; contradiction)⟩
  | renewalServed x =>
    split at hstep
    case h_2 => cases hstep
    rename_i lease reply hanswer
    obtain ⟨hcall, ⟨⟩⟩ := ite_none_right_eq_some.mp hstep
    obtain ⟨⟨held, hheld, hholds⟩, hrenewer, hflag⟩ := h.phase
    obtain ⟨hname, y, first, hy, hfirst⟩ := (hrenewer lease none rfl).1.snoc x
    refine ⟨hcontract x rfl, ⟨⟨held, hheld, hholds.snoc x⟩, ?_, hflag⟩, hblocks x⟩
    rintro lease' reply' ⟨⟩
    refine ⟨⟨hname, y, first, hy, hfirst⟩, ?_⟩
    rintro renewed ⟨⟩
    have hfits := (hcontract x rfl).fits x (by simp)
    rw [Exchange.Fits, hcall, hanswer] at hfits
    exact ⟨hfits.1.trans hname, y, first, hy, hfirst.1, hfirst.2.1, hfirst.2.2.trans hfits.2.symm⟩
  | renewalReply =>
    split at hstep
    case h_2 => cases hstep
    rename_i lease reply
    cases hstep
    obtain ⟨hlease, hrenewer, hflag⟩ := h.phase
    cases reply with
    | none =>
      refine ⟨h.contract, ⟨hlease, ?_, by simp [FlagFits, Sys.renewalTaken]⟩, h.blocks⟩
      rintro _ _ ⟨⟩
    | some renewed =>
      refine ⟨h.contract, ⟨⟨renewed, rfl, (hrenewer lease _ rfl).2 renewed rfl⟩, ?_, ?_⟩, h.blocks⟩
      · rintro _ _ ⟨⟩
      simpa [FlagFits, Sys.renewalTaken] using hflag
  | renewalFailed =>
    split at hstep
    case h_2 => cases hstep
    cases hstep
    obtain ⟨hlease, -, hflag⟩ := h.phase
    exact ⟨h.contract, ⟨hlease, (by rintro _ _ ⟨⟩), by simpa [FlagFits] using hflag⟩, h.blocks⟩
  | bodyEnds =>
    split at hstep
    case h_1 => exact h.release h.phase.1 rfl h.phase.2.2 hstep
    case h_2 =>
      cases hstep
      exact ⟨h.contract, ⟨h.phase.1, rfl, h.phase.2.2⟩, h.blocks⟩
    case h_3 => cases hstep
  | renewerStopped =>
    split at hstep
    case h_2 => cases hstep
    obtain ⟨hlease, hnone, hflag⟩ := h.phase
    exact h.release hlease hnone hflag hstep
  | releaseServed x =>
    split at hstep
    case h_2 => cases hstep
    rename_i hanswer
    obtain ⟨hcall, ⟨⟩⟩ := ite_none_right_eq_some.mp hstep
    obtain ⟨hnone, hflag, hholds, -⟩ := h.phase
    have hlt : since < history.length := by
      obtain ⟨-, y, first, hy, -⟩ := hholds
      exact lt_of_getElem? hy
    refine ⟨hcontract x rfl, ⟨hnone, hflag, hholds.snoc x, ?_⟩, hblocks x⟩
    rintro o ⟨⟩
    exact ⟨hlt, x, getElem?_concat_length, hcall, hanswer⟩
  | releaseReply =>
    split at hstep
    case h_2 => cases hstep
    cases hstep
    obtain ⟨hnone, hflag, hholds, hanswer⟩ := h.phase
    exact h.left hflag hholds hnone hanswer
  | releaseFailed =>
    split at hstep
    case h_2 => cases hstep
    cases hstep
    obtain ⟨hnone, hflag, hholds, -⟩ := h.phase
    exact h.left hflag hholds hnone (by intros; contradiction)

theorem kept_fresh : Kept cfg {} where
  contract := ⟨forall_mem_nil _, .nil⟩
  phase := ⟨rfl, rfl⟩
  blocks _ hb := by cases hb

/-- **A critical section that ends normally was exclusive.** For every backend whose histories
    keep to the contract, every renewal interval and every interleaving: a block whose release the
    store answered and that ends without an exception had its lease all along, and nobody else
    was granted the name in between; and a block whose body did not raise ends in `LockLostError`
    whenever the lease had lapsed before the release the store answered, or a renewal had been
    refused. -/
theorem section_exclusive (cfg : Config) (backend : List Exchange → Prop)
    (hbackend : ∀ history, backend history → Contract history)
    (hrun : Run (Sys.step cfg) (Answers backend) {} s) (hb : b ∈ s.blocks) :
    (∃ x lease, s.history[b.since]? = some x ∧ x.acquired = some lease ∧
      lease.name = cfg.name ∧ lease.token = b.token) ∧
    (∀ r, b.released = some r → b.ending = .returned →
      ¬ Lapsed s.history cfg.name b.token b.since r ∧
        ¬ Intruded s.history cfg.name b.since r) ∧
    (b.failed = false →
      (∃ r, b.released = some r ∧ Lapsed s.history cfg.name b.token b.since r) ∨
        .refused ∈ b.renewals →
      ∃ error, b.ending = .lockLost error) := by
  have hkept : Kept cfg s := hrun.invariant
    (fun hk hok hstep => step_kept hk (fun x hx => hbackend _ (hok x hx)) hstep) kept_fresh
  have hjudged := hkept.blocks b hb
  exact ⟨hjudged.acquired, hjudged.exclusive, hjudged.reported⟩

/-- A lock on `job` that renews. -/
def renewing : Config := { name := lit "job", owner := lit "a", renewInterval := some 10 }

/-- What the in-memory backend tells a holder that renews once and leaves in time, past the
    deadline it first got. -/
def renewedOnce : List Exchange :=
  [⟨.acquire (lit "job") (lit "a") 30, .acquired (some ⟨lit "job", 1, lit "a", 30, 30⟩), 0, 30⟩,
   ⟨.extend ⟨lit "job", 1, lit "a", 30, 30⟩ 30,
     .extended (some ⟨lit "job", 1, lit "a", 30, 40⟩), 10, 40⟩,
   ⟨.release ⟨lit "job", 1, lit "a", 30, 40⟩, .released .released, 35, 35⟩]

theorem contract_renewedOnce : Contract renewedOnce := by
  obtain ⟨s, hrun, hs⟩ : ∃ s, Run Memory.Sys.step Always { clock := 0 } s ∧
      s.history = renewedOnce :=
    Run.exists_of_replay
      [.call (.acquire (lit "job") (lit "a") 30) 0 0, .call (.extend 0 30) 10 10,
       .call (.release 1) 35 35] (by decide +kernel)
  exact hs ▸ Memory.contract_of_run hrun

instance (s : Sys) (a : Action) : Decidable (Answers (· <+: renewedOnce) s a) :=
  decidable_of_iff (a.exchange.all (fun x => decide (s.history ++ [x] <+: renewedOnce)) = true) <| by
    unfold Answers
    cases a.exchange <;> simp

/-- A block that renews once and returns: its lease was its own throughout. -/
theorem section_exclusive_renewed_once :
    ∃ (s : Sys) (b : Block),
      Run (Sys.step renewing) (Answers (· <+: renewedOnce)) {} s ∧ b ∈ s.blocks ∧
      b.ending = .returned ∧ b.renewals = [.renewed] ∧ b.released = some 2 ∧
      ¬ Lapsed s.history renewing.name b.token b.since 2 ∧
      ¬ Intruded s.history renewing.name b.since 2 := by
  obtain ⟨s, hrun, hs⟩ : ∃ s, Run (Sys.step renewing) (Answers (· <+: renewedOnce)) {} s ∧
      s.blocks = [⟨1, 0, some 2, false, [.renewed], .returned⟩] :=
    Run.exists_of_replay
      [.enter 0, .acquireServed (renewedOnce.get ⟨0, by decide⟩), .acquireReply 0, .renewerWakes,
       .renewalServed (renewedOnce.get ⟨1, by decide⟩), .renewalReply, .bodyEnds false,
       .renewerStopped, .releaseServed (renewedOnce.get ⟨2, by decide⟩), .releaseReply]
      (by decide +kernel)
  have hb : (⟨1, 0, some 2, false, [.renewed], .returned⟩ : Block) ∈ s.blocks := by
    rw [hs]
    exact mem_singleton.mpr rfl
  have hexclusive := (section_exclusive _ (· <+: renewedOnce)
    (fun _ ⟨_, h⟩ => (h ▸ contract_renewedOnce).of_append) hrun hb).2.1 2 rfl rfl
  exact ⟨s, _, hrun, hb, rfl, rfl, rfl, hexclusive⟩

end Lock

end DistributedLock
