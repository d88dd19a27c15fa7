import FastapiBoilerplate.Resilience.CircuitPeriods

/-!
# How many probes are out

`half_open_max_calls` is enforced through one shared counter, `_probes_in_flight`. It is
zeroed when the circuit turns half-open, raised by every probe admitted and lowered by every
probe that settles or is released — *whichever period that probe was admitted in*. The
generation stamp protects the recorded outcome of a call; nothing protects the counter.

So the counter is the number of the period's own outstanding probes (`Counted`) exactly as
long as no probe of an earlier half-open period comes back while the circuit is half-open
again. `KeepsCount` is that condition, read before each step. Under it the bound holds in
every state of every run; and the first step that breaks it always leaves a state from which
plain `acquire` calls push the number of outstanding probes past the limit.

With `half_open_max_calls = 1`, the default, the condition is never broken: the only probe
that is out is the one whose failure re-opens the circuit.
-/

namespace Resilience.Circuit

open Lib CircuitBreaker List Option

/-! ## Counting -/

/-- An unsettled probe that was admitted in period `p`. -/
def isOut (p : ℕ) (c : Admitted) : Bool :=
  c.call.probe && !c.call.settled && c.admittedIn == p

/-- The probes admitted since the circuit last changed state and neither settled nor
    released. -/
def Sys.outstanding (s : Sys) : ℕ := s.calls.countP (isOut s.period)

theorem isOut_iff {p : ℕ} {c : Admitted} :
    isOut p c = true ↔ c.call.probe = true ∧ c.call.settled = false ∧ c.admittedIn = p := by
  simp [isOut, and_assoc]

/-- The call an action settles or releases. -/
def Action.target (s : Sys) : Action → Option Admitted
  | .settle i _ _ => s.calls[i]?
  | .release i => s.calls[i]?
  | _ => none

/-- The step gives back, in a half-open circuit, a slot taken in an earlier period, and the
    counter is there to be lowered. -/
def ReturnsStaleProbe (s : Sys) (a : Action) : Prop :=
  s.breaker.state = .halfOpen ∧ 0 < s.breaker.probesInFlight ∧
    ∃ c ∈ a.target s, c.call.probe = true ∧ c.call.settled = false ∧ c.admittedIn < s.period

instance (s : Sys) (a : Action) : Decidable (ReturnsStaleProbe s a) :=
  inferInstanceAs (Decidable (_ ∧ _ ∧ _))

/-- The condition under which the counter counts. -/
def KeepsCount (s : Sys) (a : Action) : Prop := NoReset s a ∧ ¬ReturnsStaleProbe s a

instance (s : Sys) (a : Action) : Decidable (KeepsCount s a) :=
  inferInstanceAs (Decidable (_ ∧ _))

/-- In a half-open circuit the counter is the number of outstanding probes, and within the
    limit. -/
def Counted (cfg : CircuitBreakerConfig) (s : Sys) : Prop :=
  s.breaker.state = .halfOpen →
    s.breaker.probesInFlight = s.outstanding ∧ s.outstanding ≤ cfg.halfOpenMaxCalls

variable {cfg : CircuitBreakerConfig} {s s' : Sys} {i : ℕ} {c : Admitted} {a : Action}

/-- A call is no longer out once its latch is flipped; nobody else is affected. -/
theorem countP_latch (p : ℕ) (hi : s.calls[i]? = some c) :
    (s.latch i c).calls.countP (isOut p) =
      s.calls.countP (isOut p) - if isOut p c = true then 1 else 0 := by
  let c' : Admitted := { c with call := { c.call with settled := true } }
  have hout : ¬isOut p c' = true := by simp [c', isOut]
  have hset := countP_set (isOut p) hi c'
  rw [if_neg hout] at hset
  show (s.calls.set i c').countP (isOut p) = _
  omega

theorem countP_latch_of_not_out {p : ℕ} (hi : s.calls[i]? = some c) (hc : ¬isOut p c = true) :
    (s.latch i c).calls.countP (isOut p) = s.calls.countP (isOut p) := by
  rw [countP_latch p hi, if_neg hc, Nat.sub_zero]

theorem countP_fresh {p : ℕ} {cs : List Admitted} (h : ∀ c ∈ cs, c.admittedIn < p) :
    cs.countP (isOut p) = 0 := by
  rw [countP_eq_zero]
  intro c hc hout
  exact absurd (isOut_iff.mp hout).2.2 (Nat.ne_of_lt (h c hc))

/-! ## One step -/

section

variable (hc : Counted cfg s) (h : Tracks cfg s)

include hc h

theorem Counted.expire (now : Time) :
    Counted cfg (s.observe (s.breaker.expireOpenPeriod now) now) := by
  unfold expireOpenPeriod
  split
  · rename_i hop
    rw [observe_of_state_ne (by simp [hop.1])]
    intro _
    have hzero : s.calls.countP (isOut (s.period + 1)) = 0 :=
      countP_fresh fun c hc => Nat.lt_succ_of_le (h.admitted_le c hc)
    simp only [Sys.outstanding, hzero]
    exact ⟨trivial, Nat.zero_le _⟩
  · rw [observe_of_state_eq rfl]
    exact hc

theorem Counted.acquire (now now' : Time) : Counted cfg (s.acquire cfg now now') := by
  have h₁ := hc.expire h now
  rcases acquire_cases cfg s now now' with e | ⟨hst, e⟩ | ⟨hst, hlt, e⟩ <;> rw [e]
  · exact h₁
  · exact fun hh => absurd (hst.symm.trans hh) (by decide)
  intro _
  obtain ⟨heq, -⟩ := h₁ hst
  rw [heq] at hlt ⊢
  simp only [Sys.outstanding, countP_append, countP_singleton, isOut] at hlt ⊢
  simp only [Bool.not_false, Bool.and_self, beq_self_eq_true, if_true]
  exact ⟨trivial, hlt⟩

/-- Giving a slot back keeps the count, unless the slot is of an earlier period. -/
theorem Counted.giveBack (hi : s.calls[i]? = some c)
    (hns : ¬(s.breaker.state = .halfOpen ∧ 0 < s.breaker.probesInFlight ∧
      c.call.probe = true ∧ c.call.settled = false ∧ c.admittedIn < s.period)) :
    Counted cfg { s.latch i c with breaker := s.breaker.releaseCall c.call } := by
  have hmem : c ∈ s.calls := mem_of_getElem? hi
  intro hst
  obtain ⟨n, hn⟩ := releaseCall_eq s.breaker c.call
  have hst' : s.breaker.state = .halfOpen := by rw [hn] at hst; exact hst
  obtain ⟨heq, hle⟩ := hc hst'
  simp only [Sys.outstanding] at heq hle ⊢
  change (s.breaker.releaseCall c.call).probesInFlight =
      (s.latch i c).calls.countP (isOut s.period) ∧
    (s.latch i c).calls.countP (isOut s.period) ≤ cfg.halfOpenMaxCalls
  rw [countP_latch _ hi]
  by_cases hout : isOut s.period c = true
  · obtain ⟨hp, hu, -⟩ := isOut_iff.mp hout
    rw [if_pos hout, releaseCall_of_probe hu hp, releaseProbe]
    exact ⟨by simp only [heq], by omega⟩
  rw [if_neg hout, Nat.sub_zero]
  refine ⟨?_, hle⟩
  rw [← heq]
  -- not one of ours: settled already, not a probe, or stale — and then nothing is lowered
  by_cases hu : c.call.settled = false
  · by_cases hp : c.call.probe = true
    · have hlt : c.admittedIn < s.period :=
        Nat.lt_of_le_of_ne (h.admitted_le c hmem) fun e => hout (isOut_iff.mpr ⟨hp, hu, e⟩)
      have hzero : s.breaker.probesInFlight = 0 :=
        Nat.eq_zero_of_not_pos fun hpos => hns ⟨hst', hpos, hp, hu, hlt⟩
      rw [releaseCall_of_probe hu hp, releaseProbe]
      simp only [hzero]
    · rw [releaseCall_of_not_probe (by simpa using hp)]
  · rw [releaseCall, if_pos (by simpa using hu)]

theorem Counted.settling {now : Time} {failed : Bool} (hi : s.calls[i]? = some c)
    (hns : ¬ReturnsStaleProbe s (.settle i failed now)) (hset : Settling cfg s i c now failed s') :
    Counted cfg s' := by
  cases hset with
  | inert =>
    exact hc.giveBack h hi fun hbad => hns ⟨hbad.1, hbad.2.1, c, hi, hbad.2.2⟩
  | counted _ _ hs => exact fun hh => absurd (hs.symm.trans hh) (by decide)
  | tripped | probeFailed => exact fun hh => absurd hh (by simp [open'])
  | probePassed hu hp hs =>
    have hpr : c.call.probe = true := (h.probe c (mem_of_getElem? hi) hp).mpr hs
    have hgb := hc.giveBack h hi fun hbad => absurd hp (Nat.ne_of_lt hbad.2.2.2.2)
    rw [releaseCall_of_probe hu hpr] at hgb
    exact hgb
  | recovered => exact fun hh => absurd hh (by simp)

theorem Counted.step (hok : KeepsCount s a) (hstep : s.step cfg a = some s') : Counted cfg s' := by
  cases step_move hstep with
  | acquire => exact hc.acquire h _ _
  | settle hi => exact hc.settling h hi hok.2 (h.settling hi)
  | release hi =>
    rw [release_eq]
    exact hc.giveBack h hi fun hbad => hok.2 ⟨hbad.1, hbad.2.1, _, hi, hbad.2.2⟩
  | readState => exact hc.expire h _
  | reset => exact absurd rfl hok.1

end

theorem counted_of_run (h : Run (Sys.step cfg) KeepsCount {} s) : Counted cfg s :=
  h.invariant_with (fun h _ => Tracks.step h) (fun h hc => Counted.step hc h) tracks_init
    fun hh => absurd hh (by decide)

/-! ## Filling the circuit up -/

/-- The system after a probe was admitted. -/
def Sys.withProbe (s : Sys) : Sys :=
  { s with
    breaker := { s.breaker with probesInFlight := s.breaker.probesInFlight + 1 }
    calls := s.calls ++ [⟨⟨s.breaker.generation, true, false⟩, s.period⟩] }

theorem outstanding_withProbe (s : Sys) : s.withProbe.outstanding = s.outstanding + 1 := by
  simp [Sys.outstanding, Sys.withProbe, isOut]

theorem step_withProbe (hs : s.breaker.state = .halfOpen)
    (hlt : s.breaker.probesInFlight < cfg.halfOpenMaxCalls) :
    s.step cfg (.acquire s.clock s.clock) = some s.withProbe := by
  have hop : s.breaker.state ≠ .opened := by rw [hs]; decide
  have hacq : s.breaker.acquire cfg s.clock s.clock =
      ({ s.breaker with probesInFlight := s.breaker.probesInFlight + 1 },
        .ok ⟨s.breaker.generation, true, false⟩) := by
    rw [CircuitBreaker.acquire, expireOpenPeriod_of_not_opened hop]
    simp [hs, Nat.not_le.mpr hlt]
  rw [Sys.step, if_pos ⟨le_refl _, le_refl _⟩]
  simp only [Sys.acquire, hacq, Sys.observe, if_true, Sys.withProbe]

theorem keepsCount_of_no_target (ha : NoReset s a) (hno : a.target s = none) : KeepsCount s a := by
  refine ⟨ha, ?_⟩
  rintro ⟨-, -, c, hc, -⟩
  rw [hno] at hc
  cases hc

theorem keepsCount_of_current (ha : NoReset s a) (hc : a.target s = some c)
    (hp : c.admittedIn = s.period) : KeepsCount s a := by
  refine ⟨ha, ?_⟩
  rintro ⟨-, -, c', hc', -, -, hlt⟩
  obtain rfl : c = c' := some.inj (hc.symm.trans hc')
  exact absurd hp (Nat.ne_of_lt hlt)

theorem run_withProbe (hs : s.breaker.state = .halfOpen)
    (hlt : s.breaker.probesInFlight < cfg.halfOpenMaxCalls) :
    Run (Sys.step cfg) KeepsCount s s.withProbe :=
  .single (keepsCount_of_no_target (by simp [NoReset]) rfl) (step_withProbe hs hlt)

/-- As many more probes as there are slots by the counter. -/
theorem exists_fill (cfg : CircuitBreakerConfig) (n : ℕ) : ∀ {s : Sys}, s.breaker.state = .halfOpen →
    s.breaker.probesInFlight + n ≤ cfg.halfOpenMaxCalls →
    ∃ t, Run (Sys.step cfg) KeepsCount s t ∧ t.breaker.state = .halfOpen ∧
      t.outstanding = s.outstanding + n := by
  induction n with
  | zero => exact fun hs _ => ⟨_, .refl, hs, rfl⟩
  | succ n ih =>
    intro s hs hle
    have hslots : s.withProbe.breaker.probesInFlight + n ≤ cfg.halfOpenMaxCalls := by
      simp only [Sys.withProbe]; omega
    obtain ⟨t, hrun, hst, hout⟩ := ih (s := s.withProbe) hs hslots
    refine ⟨t, (run_withProbe hs (by omega)).trans hrun, hst, ?_⟩
    rw [hout, outstanding_withProbe]
    omega

/-- What a stale probe's return leaves: the same probes out, the counter one short. -/
theorem stale_return (h : Tracks cfg s) (hbad : ReturnsStaleProbe s a)
    (hstep : s.step cfg a = some s') :
    s'.breaker.state = .halfOpen ∧ s'.outstanding = s.outstanding ∧
      s'.breaker.probesInFlight + 1 = s.breaker.probesInFlight := by
  obtain ⟨hs, hpos, c, hc, hp, hu, hlt⟩ := hbad
  have hne : c.admittedIn ≠ s.period := Nat.ne_of_lt hlt
  have key : ∀ i, s.calls[i]? = some c →
      s.breaker.releaseProbe.state = .halfOpen ∧
      (s.latch i c).calls.countP (isOut s.period) = s.outstanding ∧
      s.breaker.releaseProbe.probesInFlight + 1 = s.breaker.probesInFlight := by
    intro i hi
    refine ⟨hs, countP_latch_of_not_out hi fun hout => hne (isOut_iff.mp hout).2.2, ?_⟩
    simp only [releaseProbe]
    omega
  cases a with
  | settle i =>
    obtain ⟨c', hi, hset⟩ := h.settle_step hstep
    obtain rfl : c = c' := some.inj (Eq.trans (Eq.symm hc) hi)
    cases hset with
    -- the outcome is not recorded, and the counter is lowered all the same
    | inert => rw [releaseCall_of_probe hu hp]; exact key i hi
    | counted _ hcur | tripped _ hcur | probeFailed _ hcur | probePassed _ hcur
    | recovered _ hcur => exact absurd hcur hne
  | release i =>
    have hi : s.calls[i]? = some c := hc
    simp only [Sys.step, hi, some.injEq] at hstep
    subst hstep
    rw [release_eq, releaseCall_of_probe hu hp]
    exact key i hi
  | acquire => cases hc
  | readState => cases hc
  | reset => cases hc

/-- The condition is sharp: after the first step that breaks it, `acquire` alone takes the
    circuit past its limit. -/
theorem Counted.overrun (hc : Counted cfg s) (h : Tracks cfg s) (hbad : ReturnsStaleProbe s a)
    (hstep : s.step cfg a = some s') :
    ∃ t, Run (Sys.step cfg) KeepsCount s' t ∧ t.breaker.state = .halfOpen ∧
      cfg.halfOpenMaxCalls < t.outstanding := by
  obtain ⟨heq, hle⟩ := hc hbad.1
  obtain ⟨hst, hout, hcount⟩ := stale_return h hbad hstep
  -- the counter is one short, so there is a slot too many to fill
  obtain ⟨t, hrun, hst', hout'⟩ :=
    exists_fill cfg (cfg.halfOpenMaxCalls - s'.breaker.probesInFlight) hst (by omega)
  exact ⟨t, hrun, hst', by omega⟩

/-! ## One slot: the condition takes care of itself -/

/-- Every unsettled probe belongs to the current period. -/
def NoStale (s : Sys) : Prop :=
  ∀ c ∈ s.calls, c.call.probe = true → c.call.settled = false → c.admittedIn = s.period

theorem NoStale.keepsCount (h : NoStale s) (ha : NoReset s a) : KeepsCount s a := by
  refine ⟨ha, ?_⟩
  rintro ⟨-, -, c, hc, hp, hu, hlt⟩
  have hmem : c ∈ s.calls := by
    cases a with
    | settle | release => exact mem_of_getElem? hc
    | acquire => cases hc
    | readState => cases hc
    | reset => cases hc
  exact absurd (h c hmem hp hu) (Nat.ne_of_lt hlt)

theorem NoStale.latch (h : NoStale s) (i : ℕ) (c : Admitted) : NoStale (s.latch i c) :=
  forall_mem_set h nofun

theorem NoStale.of_none (h : NoStale s) (hz : s.outstanding = 0) :
    ∀ c ∈ s.calls, c.call.probe = true → c.call.settled = false → False := by
  intro c hc hp hu
  exact countP_eq_zero.mp hz c hc (isOut_iff.mpr ⟨hp, hu, h c hc hp hu⟩)

/-- Away from half-open no probe is of the current period, so none is out. -/
theorem Tracks.outstanding_eq_zero (h : Tracks cfg s) (hs : s.breaker.state ≠ .halfOpen) :
    s.outstanding = 0 := by
  refine countP_eq_zero.mpr fun c hc hout => ?_
  obtain ⟨hp, -, hcur⟩ := isOut_iff.mp hout
  exact hs ((h.probe c hc hcur).mp hp)

theorem Counted.last_latched (hc : Counted cfg s) (hone : cfg.halfOpenMaxCalls = 1)
    (h : Tracks cfg s) (hi : s.calls[i]? = some c) (hu : c.call.settled = false)
    (hp : c.admittedIn = s.period) : (s.latch i c).outstanding = 0 := by
  have hmem : c ∈ s.calls := mem_of_getElem? hi
  by_cases hs : s.breaker.state = .halfOpen
  · have hout : isOut s.period c = true := isOut_iff.mpr ⟨(h.probe c hmem hp).mpr hs, hu, hp⟩
    have hle := (hc hs).2
    rw [Sys.outstanding] at hle
    have hlatch := countP_latch s.period hi
    rw [if_pos hout] at hlatch
    change (s.latch i c).calls.countP (isOut s.period) = 0
    omega
  · have hzero : s.calls.countP (isOut s.period) = 0 := h.outstanding_eq_zero hs
    change (s.latch i c).calls.countP (isOut s.period) = 0
    rw [countP_latch s.period hi, hzero, Nat.zero_sub]

theorem NoStale.expire (hn : NoStale s) (h : Tracks cfg s) (now : Time) :
    NoStale (s.observe (s.breaker.expireOpenPeriod now) now) := by
  unfold expireOpenPeriod
  split
  · rename_i hop
    rw [observe_of_state_ne (by simp [hop.1])]
    have hzero := h.outstanding_eq_zero (by rw [hop.1]; decide)
    exact fun c hc hp hu => (hn.of_none hzero c hc hp hu).elim
  · rw [observe_of_state_eq rfl]
    exact hn

theorem NoStale.step (hn : NoStale s) (hc : Counted cfg s) (hone : cfg.halfOpenMaxCalls = 1)
    (h : Tracks cfg s) (ha : NoReset s a) (hstep : s.step cfg a = some s') : NoStale s' := by
  cases step_move hstep with
  | @acquire now now' =>
    have h₁ := hn.expire h now
    rcases acquire_cases cfg s now now' with e | ⟨-, e⟩ | ⟨-, -, e⟩ <;> rw [e]
    · exact h₁
    all_goals
      exact forall_mem_snoc h₁ fun _ _ => rfl
  | @settle i =>
    generalize Sys.settle .. = s' at hstep ⊢
    obtain ⟨c', hi', hset⟩ := h.settle_step hstep
    have hn' := hn.latch i c'
    cases hset with
    | inert => exact hn'
    | counted => exact hn'
    | probePassed => exact hn'
    | tripped hu hp | probeFailed hu hp | recovered hu hp =>
      exact fun d hd hdp hdu => (hn'.of_none (hc.last_latched hone h hi' hu hp) d hd hdp hdu).elim
  | release =>
    rw [release_eq]
    exact hn.latch _ _
  | readState => exact hn.expire h _
  | reset => exact absurd rfl ha

theorem counted_of_one_slot (hone : cfg.halfOpenMaxCalls = 1)
    (hrun : Run (Sys.step cfg) NoReset {} s) : Counted cfg s := by
  have hall : Tracks cfg s ∧ Counted cfg s ∧ NoStale s := by
    apply hrun.invariant
    · intro t u a ⟨h, hc, hn⟩ ha hstep
      exact ⟨h.step hstep, hc.step h (hn.keepsCount ha) hstep, hn.step hc hone h ha hstep⟩
    · exact ⟨tracks_init, fun hh => absurd hh (by decide), nofun⟩
  exact hall.2.1

/-! ## Two slots: a run that breaks it -/

/-- An open circuit turns half-open, empty, once its deadline is read. -/
theorem exists_reopen (cfg : CircuitBreakerConfig) (hs : s.breaker.state = .opened) :
    ∃ t, Run (Sys.step cfg) KeepsCount s t ∧ t.breaker.state = .halfOpen ∧
      t.breaker.probesInFlight = 0 ∧ t.calls = s.calls ∧ s.period < t.period := by
  have hnow : s.clock ≤ max s.clock s.breaker.openUntil := le_max_left _ _
  have hdue : s.breaker.openUntil ≤ max s.clock s.breaker.openUntil := le_max_right _ _
  refine ⟨_, .single (a := .readState (max s.clock s.breaker.openUntil))
    (keepsCount_of_no_target (by simp [NoReset]) rfl) (by rw [Sys.step, if_pos hnow]), ?_⟩
  rw [expireOpenPeriod, if_pos ⟨hs, hdue⟩, observe_of_state_ne (by simp [hs])]
  exact ⟨rfl, rfl, rfl, Nat.lt_succ_self _⟩

/-- A closed circuit admits a call and sees it fail: it opens, or counts the failure and
    is still short of the threshold. -/
theorem exists_failure (h : Tracks cfg s) (hs : s.breaker.state = .closed) :
    ∃ t, Run (Sys.step cfg) KeepsCount s t ∧ (t.breaker.state = .opened ∨
      t.breaker.state = .closed ∧ t.outcomes = s.outcomes ++ [true] ∧
      ((s.outcomes ++ [true]).rtake cfg.windowSize).count true < cfg.failureThreshold) := by
  let c : Admitted := ⟨⟨s.breaker.generation, false, false⟩, s.period⟩
  let s₁ : Sys := { s with calls := s.calls ++ [c] }
  have hacq : s.step cfg (.acquire s.clock s.clock) = some s₁ := by
    have hop : s.breaker.state ≠ .opened := by rw [hs]; decide
    rw [Sys.step, if_pos ⟨le_refl _, le_refl _⟩]
    simp [Sys.acquire, CircuitBreaker.acquire, expireOpenPeriod_of_not_opened hop, hs,
      Sys.observe, s₁, c]
  have hi : s₁.calls[s.calls.length]? = some c := by simp [s₁]
  obtain ⟨t, hset⟩ : ∃ t, s₁.step cfg (.settle s.calls.length true s.clock) = some t := by
    simp only [Sys.step, hi]
    exact ⟨_, if_pos (le_refl _)⟩
  have hkeep : KeepsCount s₁ (.settle s.calls.length true s.clock) :=
    keepsCount_of_current (by simp [NoReset]) (show _ = some c from hi) rfl
  refine ⟨t, (Run.single (keepsCount_of_no_target (by simp [NoReset]) rfl) hacq).snoc
    hkeep hset, ?_⟩
  obtain ⟨c', hi', hcase⟩ := (h.step hacq).settle_step hset
  obtain rfl : c = c' := some.inj (hi.symm.trans hi')
  cases hcase with
  | inert hst =>
    rcases hst with hst | hst
    · cases hst
    · exact absurd rfl hst
  | counted _ _ _ hno => exact .inr ⟨hs, rfl, Nat.lt_of_not_le fun hf => hno ⟨rfl, hf⟩⟩
  | tripped | probeFailed => exact .inl rfl

theorem exists_opened (cfg : CircuitBreakerConfig) :
    ∃ t, Run (Sys.step cfg) KeepsCount {} t ∧ t.breaker.state = .opened := by
  have fails : ∀ n, ∃ t, Run (Sys.step cfg) KeepsCount {} t ∧ (t.breaker.state = .opened ∨
      t.breaker.state = .closed ∧ t.outcomes = List.replicate n true) := by
    intro n
    induction n with
    | zero => exact ⟨{}, .refl, .inr ⟨rfl, rfl⟩⟩
    | succ n ih =>
      obtain ⟨t, hrun, ht | ⟨ht, hout⟩⟩ := ih
      · exact ⟨t, hrun, .inl ht⟩
      obtain ⟨u, hrun', hu | ⟨hu, hout', -⟩⟩ := exists_failure (tracks_of_run hrun) ht
      · exact ⟨u, hrun.trans hrun', .inl hu⟩
      · exact ⟨u, hrun.trans hrun', .inr ⟨hu, by rw [hout', hout, replicate_succ']⟩⟩
  obtain ⟨t, hrun, ht | ⟨ht, hout⟩⟩ := fails cfg.failureThreshold
  · exact ⟨t, hrun, ht⟩
  obtain ⟨u, hrun', hu | ⟨-, -, hlt⟩⟩ := exists_failure (tracks_of_run hrun) ht
  · exact ⟨u, hrun.trans hrun', hu⟩
  have hw := cfg.failureThreshold_le_windowSize
  rw [hout, ← replicate_succ', rtake_eq_reverse_take_reverse,
    reverse_replicate, take_replicate, reverse_replicate,
    count_replicate_self] at hlt
  omega

/-- Two probes out, one of them fails, the circuit re-opens and turns half-open again: the
    other is now stale, and still out. -/
theorem exists_stale (htwo : 2 ≤ cfg.halfOpenMaxCalls) :
    ∃ t i c, Run (Sys.step cfg) KeepsCount {} t ∧ t.calls[i]? = some c ∧
      ReturnsStaleProbe t (.release i) := by
  obtain ⟨s₀, r₀, h₀⟩ := exists_opened cfg
  obtain ⟨s₁, r₁, hs₁, hp₁, -, -⟩ := exists_reopen cfg h₀
  -- two probes of one half-open period
  let s₂ := s₁.withProbe.withProbe
  let c : Admitted := ⟨⟨s₁.breaker.generation, true, false⟩, s₁.period⟩
  have r₂ : Run (Sys.step cfg) KeepsCount {} s₂ := by
    refine (r₀.trans r₁).trans ((run_withProbe hs₁ (by omega)).trans (run_withProbe hs₁ ?_))
    simp only [Sys.withProbe]
    omega
  have hA : s₂.calls[s₁.calls.length]? = some c := by simp [s₂, Sys.withProbe, c]
  have hB : s₂.calls[s₁.calls.length + 1]? = some c := by simp [s₂, Sys.withProbe, c]
  -- the second one fails, which opens the circuit
  obtain ⟨s₃, hset⟩ :
      ∃ t, s₂.step cfg (.settle (s₁.calls.length + 1) true s₂.clock) = some t := by
    simp only [Sys.step, hB]
    exact ⟨_, if_pos (le_refl _)⟩
  have hkeep : KeepsCount s₂ (.settle (s₁.calls.length + 1) true s₂.clock) :=
    keepsCount_of_current (by simp [NoReset]) (show _ = some c from hB) rfl
  have r₃ := r₂.snoc hkeep hset
  obtain ⟨hs₃, hA₃, hper₃⟩ : s₃.breaker.state = .opened ∧
      s₃.calls[s₁.calls.length]? = some c ∧ c.admittedIn < s₃.period := by
    obtain ⟨c', hB', hcase⟩ := (tracks_of_run r₂).settle_step hset
    obtain rfl : c = c' := some.inj (hB.symm.trans hB')
    have hne : s₁.calls.length + 1 ≠ s₁.calls.length := Nat.succ_ne_self _
    cases hcase with
    | inert hst =>
      rcases hst with hst | hst
      · cases hst
      · exact absurd rfl hst
    | counted _ _ hst | tripped _ _ hst => exact absurd (hs₁.symm.trans hst) (by decide)
    | probeFailed _ _ _ =>
      refine ⟨rfl, ?_, Nat.lt_succ_self _⟩
      rw [← hA]
      exact getElem?_set_ne hne
  -- half-open again, and a probe of the new period out: the first may now return
  obtain ⟨s₄, r₄, hs₄, hp₄, hcalls₄, hper₄⟩ := exists_reopen cfg hs₃
  have hA₅ : s₄.withProbe.calls[s₁.calls.length]? = some c := by
    rw [Sys.withProbe, hcalls₄, getElem?_append_of hA₃]
  refine ⟨s₄.withProbe, _, c, (r₃.trans r₄).trans (run_withProbe hs₄ (by omega)), hA₅, hs₄, ?_,
    c, hA₅, rfl, rfl, hper₃.trans hper₄⟩
  exact Nat.succ_pos _

theorem exists_overrun (htwo : 2 ≤ cfg.halfOpenMaxCalls) :
    ∃ t, Run (Sys.step cfg) NoReset {} t ∧ t.breaker.state = .halfOpen ∧
      cfg.halfOpenMaxCalls < t.outstanding := by
  obtain ⟨s, i, c, hrun, hi, hbad⟩ := exists_stale htwo
  have hstep : s.step cfg (.release i) = some (s.release i c) := by simp only [Sys.step, hi]
  obtain ⟨t, hrun', hst, hlt⟩ := (counted_of_run hrun).overrun (tracks_of_run hrun) hbad hstep
  have weak : ∀ (s : Sys) (a : Action), KeepsCount s a → NoReset s a := fun _ _ h => h.1
  exact ⟨t, ((hrun.weaken weak).snoc (by simp [NoReset]) hstep).trans (hrun'.weaken weak), hst, hlt⟩

/-! ## The bound -/

/-- **When the half-open bound holds.** In every run whose steps all keep the count, at
    most `half_open_max_calls` probes of a half-open period are out. The first step that
    does not keep it can be continued to a state with more. Over all runs the bound holds
    for exactly the configurations with one slot. -/
theorem half_open_bound (cfg : CircuitBreakerConfig) :
    (∀ s, Run (Sys.step cfg) KeepsCount {} s → s.breaker.state = .halfOpen →
      s.outstanding ≤ cfg.halfOpenMaxCalls) ∧
    (∀ s a s', Run (Sys.step cfg) KeepsCount {} s → NoReset s a → ¬KeepsCount s a →
      s.step cfg a = some s' → ∃ t, Run (Sys.step cfg) NoReset s' t ∧
        t.breaker.state = .halfOpen ∧ cfg.halfOpenMaxCalls < t.outstanding) ∧
    ((∀ s, Run (Sys.step cfg) NoReset {} s → s.breaker.state = .halfOpen →
      s.outstanding ≤ cfg.halfOpenMaxCalls) ↔ cfg.halfOpenMaxCalls = 1) := by
  refine ⟨fun s hrun hs => (counted_of_run hrun hs).2, ?_, ?_, ?_⟩
  · intro s a s' hrun ha hno hstep
    have hbad : ReturnsStaleProbe s a := by
      by_contra hgood
      exact hno ⟨ha, hgood⟩
    obtain ⟨t, hrun', hst, hlt⟩ := (counted_of_run hrun).overrun (tracks_of_run hrun) hbad hstep
    exact ⟨t, hrun'.weaken (fun _ _ h => h.1), hst, hlt⟩
  · intro hall
    by_contra hne
    have hpos := cfg.one_le_halfOpenMaxCalls
    have htwo : 2 ≤ cfg.halfOpenMaxCalls := by omega
    obtain ⟨t, hrun, hst, hlt⟩ := exists_overrun htwo
    exact absurd (hall t hrun hst) (Nat.not_le.mpr hlt)
  · intro hone s hrun hs
    exact (counted_of_one_slot hone hrun hs).2

/-- A run that keeps the count and fills the half-open period up to its limit. -/
theorem half_open_bound_two_probes :
    ∃ s, Run (Sys.step eagerConfig) KeepsCount {} s ∧ s.breaker.state = .halfOpen ∧
      s.outstanding = 2 ∧ s.outstanding ≤ eagerConfig.halfOpenMaxCalls := by
  refine Run.exists_of_replay_and₂ [.acquire 0 0, .settle 0 true 0, .acquire 1 1, .acquire 1 1]
    (by decide +kernel) ?_
  intro s hrun hstate _
  exact (half_open_bound eagerConfig).1 s hrun hstate

/-- The defect, on a breaker that allows two probes: one failure opens it, probes 1 and 2
    go out, 2 fails, probes 3 and 4 go out in the next half-open period, probe 1 comes back
    and its slot is given to probe 5 — three of the period's probes are out. -/
theorem half_open_bound_broken :
    ∃ s, Run (Sys.step eagerConfig) NoReset {} s ∧ s.breaker.state = .halfOpen ∧
      eagerConfig.halfOpenMaxCalls < s.outstanding := by
  refine Run.exists_of_replay
    [.acquire 0 0, .settle 0 true 0, .acquire 1 1, .acquire 1 1, .settle 2 true 1,
      .acquire 2 2, .acquire 2 2, .settle 1 false 2, .acquire 2 2] ?_
  decide +kernel

end Resilience.Circuit
