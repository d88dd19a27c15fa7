import FastapiBoilerplate.Lib.Lists
import FastapiBoilerplate.Resilience.Circuit

/-!
# The breaker against its three-state specification

What the three states *mean* is a statement about history: a closed circuit remembers the
last `window_size` outcomes of the calls admitted since it closed, an open one the instant
it opened, a half-open one how many of its own probes succeeded. The code implements that
with a bounded deque, a deadline, a counter cleared in four places and a generation stamp;
`Tracks` says the implementation and the history agree, in every state of every run.

The one subtle clause is `current`: *being of the current generation* and *having been
admitted in the current period* are the same thing. They move at different moments — the
generation is bumped when the circuit opens and when it closes but not when it turns
half-open, a period ends at all three — and agree because an open circuit admits nobody.
-/

namespace Resilience

open Lib CircuitBreaker

/-! ## What one operation does to the breaker -/

namespace CircuitBreaker

variable {cfg : CircuitBreakerConfig} {b : CircuitBreaker} {call : CircuitCall}

/-- `acquire` expires the open period and then refuses, or admits in a state that is not
    open: any call when closed, a probe when half-open with a slot left. -/
theorem acquire_cases (cfg : CircuitBreakerConfig) (b : CircuitBreaker) (now now' : Time) :
    let b₁ := b.expireOpenPeriod now
    (∃ retryAfter, b.acquire cfg now now' = (b₁, .error retryAfter)) ∨
    (b₁.state = .closed ∧ b.acquire cfg now now' = (b₁, .ok ⟨b₁.generation, false, false⟩)) ∨
    (b₁.state = .halfOpen ∧ b₁.probesInFlight < cfg.halfOpenMaxCalls ∧
      b.acquire cfg now now' = ({ b₁ with probesInFlight := b₁.probesInFlight + 1 },
        .ok ⟨b₁.generation, true, false⟩)) := by
  dsimp only [acquire]
  generalize b.expireOpenPeriod now = b₁
  cases hs : b₁.state with
  | opened => exact .inl ⟨max 0 (b₁.openUntil - now'), by simp⟩
  | closed => exact .inr (.inl ⟨rfl, by simp⟩)
  | halfOpen =>
    by_cases hfull : cfg.halfOpenMaxCalls ≤ b₁.probesInFlight
    · exact .inl ⟨max 0 0, by simp [hfull]⟩
    · exact .inr (.inr ⟨rfl, Nat.lt_of_not_le hfull, by simp [hfull]⟩)

theorem settleCall_of_settled (h : call.settled = true) (failed : Bool) (now : Time) :
    b.settleCall cfg call failed now = b := by
  rw [settleCall, if_pos h]

theorem settleCall_of_unsettled (h : call.settled = false) (failed : Bool) (now : Time) :
    b.settleCall cfg call failed now =
      (b.releaseCall call).record cfg call.generation failed now := by
  simp only [settleCall, releaseCall, h, Bool.false_eq_true, if_false]

theorem releaseCall_of_not_probe (h : call.probe = false) : b.releaseCall call = b := by
  simp [releaseCall, h]

theorem releaseCall_of_probe (h : call.settled = false) (hp : call.probe = true) :
    b.releaseCall call = b.releaseProbe := by
  simp [releaseCall, h, hp]

theorem releaseCall_eq (b : CircuitBreaker) (call : CircuitCall) :
    ∃ n, b.releaseCall call = { b with probesInFlight := n } := by
  unfold releaseCall releaseProbe
  split
  · exact ⟨_, rfl⟩
  · split <;> exact ⟨_, rfl⟩

@[simp] theorem releaseCall_state : (b.releaseCall call).state = b.state := by
  obtain ⟨n, hn⟩ := releaseCall_eq b call
  rw [hn]

variable {generation : ℕ}

theorem record_of_stale (h : generation ≠ b.generation) (failed : Bool) (now : Time) :
    b.record cfg generation failed now = b := by
  rw [record, if_pos h]

theorem record_of_closed (h : generation = b.generation) (hs : b.state = .closed) (failed : Bool)
    (now : Time) :
    b.record cfg generation failed now =
      if failed = true ∧
          cfg.failureThreshold ≤ ((b.window ++ [failed]).rtake cfg.windowSize).count true then
        b.open' cfg now
      else b.pushWindow cfg failed := by
  simp only [record, h, hs, ne_eq, not_true_eq_false, if_false, reduceCtorEq]
  rfl

theorem record_of_halfOpen (h : generation = b.generation) (hs : b.state = .halfOpen)
    (failed : Bool) (now : Time) :
    b.record cfg generation failed now = b.recordProbe cfg failed now := by
  simp only [record, h, hs, ne_eq, not_true_eq_false, if_false, if_true]

end CircuitBreaker

/-! ## The invariant -/

namespace Circuit

/-- The implementation agrees with the history: which calls are current, what the window
    holds, when the open period ends, how many probes have succeeded. -/
structure Tracks (cfg : CircuitBreakerConfig) (s : Sys) : Prop where
  admitted_le : ∀ c ∈ s.calls, c.admittedIn ≤ s.period
  generation_le : ∀ c ∈ s.calls, c.call.generation ≤ s.breaker.generation
  current : ∀ c ∈ s.calls, c.admittedIn = s.period ↔ c.call.generation = s.breaker.generation
  probe : ∀ c ∈ s.calls, c.admittedIn = s.period →
    (c.call.probe = true ↔ s.breaker.state = .halfOpen)
  closed : s.breaker.state = .closed → s.breaker.window = s.outcomes.rtake cfg.windowSize
  opened : s.breaker.state = .opened →
    s.breaker.openUntil = s.since + cfg.resetTimeout ∧ ∀ c ∈ s.calls, c.admittedIn ≠ s.period
  halfOpen : s.breaker.state = .halfOpen →
    s.outcomes = List.replicate s.breaker.probeSuccesses false ∧
    s.breaker.probeSuccesses < cfg.successThreshold

/-- The calls of `cs'` are calls of `cs`, but for their latches. -/
def Kept (cs cs' : List Admitted) : Prop :=
  ∀ c' ∈ cs', ∃ c ∈ cs, c'.admittedIn = c.admittedIn ∧
    c'.call.generation = c.call.generation ∧ c'.call.probe = c.call.probe

theorem Kept.refl (cs : List Admitted) : Kept cs cs :=
  fun c hc => ⟨c, hc, rfl, rfl, rfl⟩

variable {i : ℕ} {c : Admitted} {b : CircuitBreaker} {now t : Time} {a : Action}

theorem Kept.latch {s : Sys} (hc : s.calls[i]? = some c) : Kept s.calls (s.latch i c).calls :=
  forall_mem_set (Kept.refl _) ⟨c, List.mem_of_getElem? hc, rfl, rfl, rfl⟩

variable {cfg : CircuitBreakerConfig} {s s' : Sys}

/-- A step that touches nothing the invariant reads, latches and the probe counter aside. -/
theorem Tracks.congr (h : Tracks cfg s) (hk : Kept s.calls s'.calls)
    (hst : s'.breaker.state = s.breaker.state := by rfl)
    (hw : s'.breaker.window = s.breaker.window := by rfl)
    (hu : s'.breaker.openUntil = s.breaker.openUntil := by rfl)
    (hg : s'.breaker.generation = s.breaker.generation := by rfl)
    (hp : s'.breaker.probeSuccesses = s.breaker.probeSuccesses := by rfl)
    (hper : s'.period = s.period := by rfl) (hsi : s'.since = s.since := by rfl)
    (ho : s'.outcomes = s.outcomes := by rfl) : Tracks cfg s' where
  admitted_le c' hc' := by
    obtain ⟨c, hc, ha, -, -⟩ := hk c' hc'
    rw [ha, hper]; exact h.admitted_le c hc
  generation_le c' hc' := by
    obtain ⟨c, hc, -, hgc, -⟩ := hk c' hc'
    rw [hgc, hg]; exact h.generation_le c hc
  current c' hc' := by
    obtain ⟨c, hc, ha, hgc, -⟩ := hk c' hc'
    rw [ha, hper, hgc, hg]; exact h.current c hc
  probe c' hc' := by
    obtain ⟨c, hc, ha, -, hpc⟩ := hk c' hc'
    rw [ha, hper, hpc, hst]; exact h.probe c hc
  closed hs := by
    rw [hw, ho]; exact h.closed (hst ▸ hs)
  opened hs := by
    obtain ⟨h₁, h₂⟩ := h.opened (hst ▸ hs)
    refine ⟨by rw [hu, hsi, h₁], fun c' hc' => ?_⟩
    obtain ⟨c, hc, ha, -, -⟩ := hk c' hc'
    rw [ha, hper]; exact h₂ c hc
  halfOpen hs := by
    rw [ho, hp]; exact h.halfOpen (hst ▸ hs)

theorem Tracks.of_fresh (ha : ∀ c ∈ s.calls, c.admittedIn < s.period)
    (hg : ∀ c ∈ s.calls, c.call.generation < s.breaker.generation)
    (hc : s.breaker.state = .closed → s.breaker.window = s.outcomes.rtake cfg.windowSize)
    (ho : s.breaker.state = .opened → s.breaker.openUntil = s.since + cfg.resetTimeout)
    (hh : s.breaker.state = .halfOpen → s.outcomes = List.replicate s.breaker.probeSuccesses false ∧
      s.breaker.probeSuccesses < cfg.successThreshold) : Tracks cfg s where
  admitted_le c hm := Nat.le_of_lt (ha c hm)
  generation_le c hm := Nat.le_of_lt (hg c hm)
  current c hm := ⟨fun h => absurd h (Nat.ne_of_lt (ha c hm)),
    fun h => absurd h (Nat.ne_of_lt (hg c hm))⟩
  probe c hm h := absurd h (Nat.ne_of_lt (ha c hm))
  closed := hc
  opened h := ⟨ho h, fun c hm => Nat.ne_of_lt (ha c hm)⟩
  halfOpen := hh

theorem Tracks.bump (h : Tracks cfg s) (hk : Kept s.calls s'.calls)
    (hper : s'.period = s.period + 1) (hg : s'.breaker.generation = s.breaker.generation + 1)
    (hc : s'.breaker.state = .closed → s'.breaker.window = s'.outcomes.rtake cfg.windowSize)
    (ho : s'.breaker.state = .opened → s'.breaker.openUntil = s'.since + cfg.resetTimeout)
    (hh : s'.breaker.state ≠ .halfOpen) : Tracks cfg s' := by
  refine .of_fresh (fun c' hc' => ?_) (fun c' hc' => ?_) hc ho (fun hs => absurd hs hh)
  · obtain ⟨c, hm, ha, -, -⟩ := hk c' hc'
    rw [ha, hper]; exact Nat.lt_succ_of_le (h.admitted_le c hm)
  · obtain ⟨c, hm, -, hgc, -⟩ := hk c' hc'
    rw [hgc, hg]; exact Nat.lt_succ_of_le (h.generation_le c hm)

theorem tracks_init : Tracks cfg {} :=
  .of_fresh (fun _ h => absurd h (by simp)) (fun _ h => absurd h (by simp))
    (fun _ => by simp [List.rtake]) (fun h => absurd h (by decide)) (fun h => absurd h (by decide))

/-! ## The invariant is kept -/

theorem Tracks.expire (h : Tracks cfg s) (now : Time) :
    Tracks cfg (s.observe (s.breaker.expireOpenPeriod now) now) := by
  unfold expireOpenPeriod
  split
  · rename_i hop
    have hfresh := (h.opened hop.1).2
    simp only [Sys.observe, hop.1, reduceCtorEq, if_false]
    refine .of_fresh (fun c hc => Nat.lt_succ_of_le (h.admitted_le c hc)) (fun c hc => ?_)
      (fun hs => absurd hs (by simp)) (fun hs => absurd hs (by simp))
      (fun _ => ⟨rfl, cfg.one_le_successThreshold⟩)
    exact Nat.lt_of_le_of_ne (h.generation_le c hc)
      (fun hg => hfresh c hc ((h.current c hc).mpr hg))
  · simpa only [Sys.observe, if_true] using h

theorem Tracks.admitted (h : Tracks cfg s) (hno : s.breaker.state ≠ .opened) {p : Bool}
    (hp : p = true ↔ s.breaker.state = .halfOpen) :
    Tracks cfg { s with calls := s.calls ++ [⟨⟨s.breaker.generation, p, false⟩, s.period⟩] } where
  admitted_le := forall_mem_snoc h.admitted_le (Nat.le_refl _)
  generation_le := forall_mem_snoc h.generation_le (Nat.le_refl _)
  current := forall_mem_snoc h.current ⟨fun _ => rfl, fun _ => rfl⟩
  probe := forall_mem_snoc h.probe fun _ => hp
  closed := h.closed
  opened hs := absurd hs hno
  halfOpen := h.halfOpen

theorem observe_probes (s : Sys) (b : CircuitBreaker) (n : ℕ) (now : Time) :
    s.observe { b with probesInFlight := n } now =
      { s.observe b now with breaker := { b with probesInFlight := n } } := by
  unfold Sys.observe
  by_cases hb : b.state = s.breaker.state
  · rw [if_pos hb, if_pos hb]
  · rw [if_neg hb, if_neg hb]

@[simp] theorem observe_breaker (s : Sys) (b : CircuitBreaker) (now : Time) :
    (s.observe b now).breaker = b := by
  unfold Sys.observe; split <;> rfl

@[simp] theorem observe_calls (s : Sys) (b : CircuitBreaker) (now : Time) :
    (s.observe b now).calls = s.calls := by
  unfold Sys.observe; split <;> rfl

theorem observe_of_state_eq (h : b.state = s.breaker.state) :
    s.observe b now = { s with breaker := b } := by
  rw [Sys.observe, if_pos h]

theorem observe_of_state_ne (h : b.state ≠ s.breaker.state) :
    s.observe b now =
      { s with breaker := b, period := s.period + 1, since := now, outcomes := [] } := by
  rw [Sys.observe, if_neg h]

/-- What `acquire` does to the system: expire the open period, and then refuse, or admit
    in a state that is not open. -/
theorem acquire_cases (cfg : CircuitBreakerConfig) (s : Sys) (now now' : Time) :
    let s₁ := s.observe (s.breaker.expireOpenPeriod now) now
    s.acquire cfg now now' = { s₁ with clock := now' } ∨
    (s₁.breaker.state = .closed ∧ s.acquire cfg now now' =
      { s₁ with clock := now', calls := s₁.calls ++
        [⟨⟨s₁.breaker.generation, false, false⟩, s₁.period⟩] }) ∨
    (s₁.breaker.state = .halfOpen ∧ s₁.breaker.probesInFlight < cfg.halfOpenMaxCalls ∧
      s.acquire cfg now now' =
      { s₁ with
        clock := now'
        breaker := { s₁.breaker with probesInFlight := s₁.breaker.probesInFlight + 1 }
        calls := s₁.calls ++ [⟨⟨s₁.breaker.generation, true, false⟩, s₁.period⟩] }) := by
  simp only [observe_breaker]
  rcases s.breaker.acquire_cases cfg now now' with ⟨r, e⟩ | ⟨hst, e⟩ | ⟨hst, hlt, e⟩
  · exact .inl (by simp only [Sys.acquire, e, observe_breaker])
  · exact .inr (.inl ⟨hst, by simp only [Sys.acquire, e, observe_breaker]⟩)
  · exact .inr (.inr ⟨hst, hlt, by simp only [Sys.acquire, e, observe_probes]⟩)

theorem Tracks.acquire (h : Tracks cfg s) (now now' : Time) :
    Tracks cfg (s.acquire cfg now now') := by
  have h₁ := h.expire now
  rcases acquire_cases cfg s now now' with e | ⟨hst, e⟩ | ⟨hst, -, e⟩ <;> rw [e]
  · exact h₁.congr (.refl _)
  · have h₂ := h₁.admitted (p := false) (by rw [hst]; decide) (by rw [hst]; decide)
    exact h₂.congr (.refl _)
  · have h₂ := h₁.admitted (p := true) (by rw [hst]; decide) (by rw [hst]; decide)
    exact h₂.congr (.refl _)

/-! ## What settling a call does -/

/-- Every way settling the call `c` can go, with the guard that selects it. Stated over
    the history, not over the code's own counters: this is the specification's transition
    table for outcomes. -/
inductive Settling (cfg : CircuitBreakerConfig) (s : Sys) (i : ℕ) (c : Admitted) (now : Time) :
    Bool → Sys → Prop
  | inert {failed : Bool} (h : c.call.settled = true ∨ c.admittedIn ≠ s.period) :
      Settling cfg s i c now failed
        { s.latch i c with breaker := s.breaker.releaseCall c.call, clock := now }
  | counted {failed : Bool} (hu : c.call.settled = false) (hp : c.admittedIn = s.period)
      (hs : s.breaker.state = .closed)
      (hno : ¬(failed = true ∧ cfg.failureThreshold ≤
        ((s.outcomes ++ [true]).rtake cfg.windowSize).count true)) :
      Settling cfg s i c now failed
        { s.latch i c with
          breaker := s.breaker.pushWindow cfg failed
          outcomes := s.outcomes ++ [failed]
          clock := now }
  | tripped (hu : c.call.settled = false) (hp : c.admittedIn = s.period)
      (hs : s.breaker.state = .closed)
      (hf : cfg.failureThreshold ≤ ((s.outcomes ++ [true]).rtake cfg.windowSize).count true) :
      Settling cfg s i c now true
        { s.latch i c with
          breaker := s.breaker.open' cfg now
          period := s.period + 1, since := now, outcomes := [], clock := now }
  | probeFailed (hu : c.call.settled = false) (hp : c.admittedIn = s.period)
      (hs : s.breaker.state = .halfOpen) :
      Settling cfg s i c now true
        { s.latch i c with
          breaker := s.breaker.open' cfg now
          period := s.period + 1, since := now, outcomes := [], clock := now }
  | probePassed (hu : c.call.settled = false) (hp : c.admittedIn = s.period)
      (hs : s.breaker.state = .halfOpen)
      (hlt : s.breaker.probeSuccesses + 1 < cfg.successThreshold) :
      Settling cfg s i c now false
        { s.latch i c with
          breaker := { s.breaker.releaseProbe with
            probeSuccesses := s.breaker.probeSuccesses + 1 }
          outcomes := s.outcomes ++ [false]
          clock := now }
  | recovered (hu : c.call.settled = false) (hp : c.admittedIn = s.period)
      (hs : s.breaker.state = .halfOpen)
      (hge : cfg.successThreshold ≤ s.breaker.probeSuccesses + 1) :
      Settling cfg s i c now false
        { s.latch i c with
          breaker := { s.breaker.releaseProbe with
            state := .closed, window := [], probeSuccesses := 0
            generation := s.breaker.generation + 1 }
          period := s.period + 1, since := now, outcomes := [], clock := now }

theorem note_of_current (hu : c.call.settled = false) (hp : c.admittedIn = s.period) (failed : Bool)
    : s.note c failed = { s with outcomes := s.outcomes ++ [failed] } := by
  rw [Sys.note, if_pos ⟨hu, hp⟩]

theorem note_of_stale (h : c.call.settled = true ∨ c.admittedIn ≠ s.period) (failed : Bool) :
    s.note c failed = s := by
  rw [Sys.note, if_neg]
  rintro ⟨hu, hp⟩
  rcases h with h | h
  · exact absurd (hu.symm.trans h) (by decide)
  · exact h hp

section Settle

variable {i : ℕ} {c : Admitted} {now : Time} {failed : Bool}

section

variable (h : Tracks cfg s) (hc : c ∈ s.calls)

include h hc

private theorem settling_inert (hst : c.call.settled = true ∨ c.admittedIn ≠ s.period) :
    Settling cfg s i c now failed (s.settle cfg i c failed now) := by
  have hb : s.breaker.settleCall cfg c.call failed now = s.breaker.releaseCall c.call := by
    cases hu : c.call.settled with
    | true => rw [settleCall_of_settled hu, releaseCall, if_pos hu]
    | false =>
      have hper : c.admittedIn ≠ s.period := hst.resolve_left (by simp [hu])
      obtain ⟨n, hn⟩ := releaseCall_eq s.breaker c.call
      rw [settleCall_of_unsettled hu, record_of_stale]
      rw [hn]
      exact fun hg => hper ((h.current c hc).mpr hg)
  have e : s.settle cfg i c failed now =
      { s.latch i c with breaker := s.breaker.releaseCall c.call, clock := now } := by
    simp only [Sys.settle, note_of_stale hst, hb]
    rw [observe_of_state_eq (by exact releaseCall_state)]
  rw [e]
  exact .inert hst

private theorem settling_closed (hu : c.call.settled = false) (hper : c.admittedIn = s.period)
    (hs : s.breaker.state = .closed) :
    Settling cfg s i c now failed (s.settle cfg i c failed now) := by
  have hnp : c.call.probe = false := by
    have := (h.probe c hc hper).not.mpr (by rw [hs]; decide)
    simpa using this
  have hb : s.breaker.settleCall cfg c.call failed now =
      if failed = true ∧ cfg.failureThreshold ≤
          ((s.outcomes ++ [failed]).rtake cfg.windowSize).count true then
        s.breaker.open' cfg now
      else s.breaker.pushWindow cfg failed := by
    rw [settleCall_of_unsettled hu, releaseCall_of_not_probe hnp,
      record_of_closed ((h.current c hc).mp hper) hs, h.closed hs, rtake_append_rtake]
  simp only [Sys.settle, note_of_current hu hper, hb]
  by_cases ht : failed = true ∧ cfg.failureThreshold ≤
      ((s.outcomes ++ [failed]).rtake cfg.windowSize).count true
  · obtain ⟨rfl, hf⟩ := ht
    rw [if_pos ⟨rfl, hf⟩, observe_of_state_ne (by simp [open', Sys.latch, hs])]
    exact .tripped hu hper hs hf
  · rw [if_neg ht, observe_of_state_eq (by simp [pushWindow, Sys.latch])]
    refine .counted hu hper hs fun hf => ht ⟨hf.1, ?_⟩
    rw [hf.1]; exact hf.2

private theorem settling_halfOpen (hu : c.call.settled = false) (hper : c.admittedIn = s.period)
    (hs : s.breaker.state = .halfOpen) :
    Settling cfg s i c now failed (s.settle cfg i c failed now) := by
  have hb : s.breaker.settleCall cfg c.call failed now =
      s.breaker.releaseProbe.recordProbe cfg failed now := by
    rw [settleCall_of_unsettled hu, releaseCall_of_probe hu ((h.probe c hc hper).mpr hs),
      record_of_halfOpen (b := s.breaker.releaseProbe) ((h.current c hc).mp hper) hs]
  simp only [Sys.settle, note_of_current hu hper, hb]
  cases failed with
  | true =>
    rw [recordProbe, if_pos rfl, observe_of_state_ne (by simp [open', Sys.latch, hs])]
    exact .probeFailed hu hper hs
  | false =>
    rw [recordProbe, if_neg (by decide)]
    by_cases hlt : s.breaker.releaseProbe.probeSuccesses + 1 < cfg.successThreshold
    · rw [if_pos hlt, observe_of_state_eq (by simp [releaseProbe, Sys.latch])]
      exact .probePassed hu hper hs hlt
    · rw [if_neg hlt, observe_of_state_ne (by simp [Sys.latch, hs])]
      exact .recovered hu hper hs (Nat.le_of_not_lt hlt)

end

theorem Tracks.settling (h : Tracks cfg s) (hi : s.calls[i]? = some c) :
    Settling cfg s i c now failed (s.settle cfg i c failed now) := by
  have hc : c ∈ s.calls := List.mem_of_getElem? hi
  cases hu : c.call.settled with
  | true => exact settling_inert h hc (.inl hu)
  | false =>
    by_cases hper : c.admittedIn = s.period
    · cases hs : s.breaker.state with
      | closed => exact settling_closed h hc hu hper hs
      | opened => exact absurd hper ((h.opened hs).2 c hc)
      | halfOpen => exact settling_halfOpen h hc hu hper hs
    · exact settling_inert h hc (.inr hper)

theorem Settling.tracks (hset : Settling cfg s i c now failed s') (h : Tracks cfg s)
    (hi : s.calls[i]? = some c) : Tracks cfg s' := by
  have hk := Kept.latch hi
  have h' : Tracks cfg { s.latch i c with clock := now } := h.congr hk
  cases hset with
  | inert _ =>
    obtain ⟨n, hn⟩ := releaseCall_eq s.breaker c.call
    rw [hn]
    exact h'.congr (.refl _)
  | counted _ _ hs _ =>
    exact { h' with
      closed := fun _ => by
        rw [pushWindow, h.closed hs, rtake_append_rtake]
      halfOpen := fun hh => absurd (hs.symm.trans hh) (by decide) }
  | tripped _ _ hs _ | probeFailed _ _ =>
    exact h.bump hk rfl rfl (fun hh => absurd hh (by simp [open'])) (fun _ => rfl) (by simp [open'])
  | probePassed _ _ hs hlt =>
    exact { h' with
      closed := fun hh => absurd (hs.symm.trans hh) (by decide)
      halfOpen := fun _ => ⟨by rw [(h.halfOpen hs).1, List.replicate_succ'], hlt⟩ }
  | recovered _ _ hs _ =>
    exact h.bump hk rfl rfl (fun _ => by simp [List.rtake]) (fun hh => absurd hh (by simp))
      (by simp)

end Settle

theorem release_eq (s : Sys) (i : ℕ) (c : Admitted) :
    s.release i c = { s.latch i c with breaker := s.breaker.releaseCall c.call } := by
  rw [Sys.release, observe_of_state_eq (by exact releaseCall_state)]

theorem Tracks.release (h : Tracks cfg s) (hi : s.calls[i]? = some c) :
    Tracks cfg (s.release i c) := by
  obtain ⟨n, hn⟩ := releaseCall_eq s.breaker c.call
  rw [release_eq, hn]
  exact h.congr (Kept.latch hi)

/-! ## Steps and runs -/

/-- What a step is, action by action. -/
inductive Move (cfg : CircuitBreakerConfig) (s : Sys) : Action → Sys → Prop
  | acquire {now now' : Time} (h₁ : s.clock ≤ now) (h₂ : now ≤ now') :
    Move cfg s (.acquire now now') (s.acquire cfg now now')
  | settle {i : ℕ} {failed : Bool} {now : Time} {c : Admitted} (hi : s.calls[i]? = some c)
    (h₁ : s.clock ≤ now) : Move cfg s (.settle i failed now) (s.settle cfg i c failed now)
  | release {i : ℕ} {c : Admitted} (hi : s.calls[i]? = some c) :
    Move cfg s (.release i) (s.release i c)
  | readState {now : Time} (h₁ : s.clock ≤ now) : Move cfg s (.readState now)
    { s.observe (s.breaker.expireOpenPeriod now) now with clock := now }
  | reset : Move cfg s .reset { s with
    breaker := s.breaker.reset, period := s.period + 1, since := s.clock, outcomes := [] }

theorem step_move (h : s.step cfg a = some s') : Move cfg s a s' := by
  cases a with simp only [Sys.step] at h
  | acquire =>
    obtain ⟨hck, ⟨⟩⟩ := Option.ite_none_right_eq_some.mp h
    exact .acquire hck.1 hck.2
  | settle =>
    split at h
    · obtain ⟨hck, ⟨⟩⟩ := Option.ite_none_right_eq_some.mp h
      exact .settle ‹_› hck
    · cases h
  | release =>
    split at h <;> cases h
    exact .release ‹_›
  | readState =>
    obtain ⟨hck, ⟨⟩⟩ := Option.ite_none_right_eq_some.mp h
    exact .readState hck
  | reset =>
    cases h
    exact .reset

theorem Tracks.settle_step {failed : Bool} (h : Tracks cfg s)
    (hstep : s.step cfg (.settle i failed now) = some s') :
    ∃ c, s.calls[i]? = some c ∧ Settling cfg s i c now failed s' := by
  cases step_move hstep with
  | settle hi => exact ⟨_, hi, h.settling hi⟩

theorem Tracks.step (h : Tracks cfg s) (hstep : s.step cfg a = some s') : Tracks cfg s' := by
  cases step_move hstep with
  | acquire => exact h.acquire _ _
  | settle hi => exact (h.settling hi).tracks h hi
  | release hi => exact h.release hi
  | readState => exact (h.expire _).congr (.refl _)
  | reset =>
    exact h.bump (.refl _) rfl rfl (fun _ => by simp [List.rtake, reset])
      (fun hh => absurd hh (by simp [reset])) (by simp [reset])

theorem tracks_of_run {ok : Sys → Action → Prop} (h : Run (Sys.step cfg) ok {} s) : Tracks cfg s :=
  h.invariant (fun ht _ => ht.step) tracks_init

/-! ## The four laws, one step at a time -/

theorem expireOpenPeriod_of_not_opened (h : b.state ≠ .opened) (now : Time) :
    b.expireOpenPeriod now = b := by
  rw [expireOpenPeriod, if_neg fun hop => h hop.1]

theorem expireOpenPeriod_of_early (h : now < b.openUntil) : b.expireOpenPeriod now = b := by
  rw [expireOpenPeriod, if_neg fun hop => absurd hop.2 (not_le.mpr h)]

theorem acquire_state (cfg : CircuitBreakerConfig) (s : Sys) (now now' : Time) :
    (s.acquire cfg now now').breaker.state = (s.breaker.expireOpenPeriod now).state := by
  rcases acquire_cases cfg s now now' with e | ⟨-, e⟩ | ⟨-, -, e⟩ <;> rw [e] <;> simp

theorem acquire_of_early {now' : Time} (hop : s.breaker.state = .opened)
    (h : now < s.breaker.openUntil) : s.acquire cfg now now' = { s with clock := now' } := by
  have hacquire := acquire_cases cfg s now now'
  simpa [expireOpenPeriod_of_early h, hop, observe_of_state_eq] using hacquire

/-- Away from an open circuit, only settling a call moves the state. -/
theorem state_eq_of_not_settle (hs : s.breaker.state ≠ .opened) (ha : NoReset s a)
    (hns : ∀ i failed now, a ≠ .settle i failed now) (hstep : s.step cfg a = some s') :
    s'.breaker.state = s.breaker.state := by
  cases step_move hstep with
  | acquire => rw [acquire_state, expireOpenPeriod_of_not_opened hs]
  | settle => exact absurd rfl (hns _ _ _)
  | release => rw [release_eq, releaseCall_state]
  | readState => simp only [observe_breaker, expireOpenPeriod_of_not_opened hs]
  | reset => exact absurd rfl ha

section

variable (h : Tracks cfg s)

include h

/-- Away from an open circuit, only a call of the period moves the state. -/
theorem Tracks.live_of_moved (hs : s.breaker.state ≠ .opened) (ha : NoReset s a)
    (hstep : s.step cfg a = some s') (hne : s'.breaker.state ≠ s.breaker.state) :
    ∃ i failed now c, a = .settle i failed now ∧ s.calls[i]? = some c ∧
      c.call.settled = false ∧ c.admittedIn = s.period := by
  by_cases hset : ∃ i failed now, a = .settle i failed now
  · obtain ⟨i, failed, now, rfl⟩ := hset
    obtain ⟨c, hi, hcase⟩ := h.settle_step hstep
    cases hcase with
    | inert => exact absurd releaseCall_state hne
    | counted hu hp _ _ | tripped hu hp _ _ | probeFailed hu hp _ | probePassed hu hp _ _
    | recovered hu hp _ _ => exact ⟨i, _, now, c, rfl, hi, hu, hp⟩
  · have hns : ∀ i failed now, a ≠ .settle i failed now := fun i failed now e =>
      hset ⟨i, failed, now, e⟩
    exact absurd (state_eq_of_not_settle hs ha hns hstep) hne

/-- Where the outcome of a call of the period leads. -/
theorem Tracks.settle_live {failed : Bool} (hstep : s.step cfg (.settle i failed now) = some s')
    (hi : s.calls[i]? = some c) (hu : c.call.settled = false) (hp : c.admittedIn = s.period) :
    (s.breaker.state = .closed → (s'.breaker.state = .opened ↔ failed = true ∧
      cfg.failureThreshold ≤ ((s.outcomes ++ [true]).rtake cfg.windowSize).count true)) ∧
    (s.breaker.state = .halfOpen → (s'.breaker.state = .closed ↔ failed = false ∧
      cfg.successThreshold ≤ s.breaker.probeSuccesses + 1)) := by
  obtain ⟨c', hi', hcase⟩ := h.settle_step hstep
  cases hi.symm.trans hi'
  cases hcase with
  | inert hst => simp [hu, hp] at hst
  | counted _ _ hs hno => simp [hs, pushWindow, hno]
  | tripped _ _ hs hf => simp [hs, open', hf]
  | probeFailed _ _ hs => simp [hs, open']
  | probePassed _ _ hs hlt => simp [hs, releaseProbe, hlt]
  | recovered _ _ hs hge => simp [hs, hge]

/-- The failure that trips the window, and nothing else, opens a closed circuit. -/
theorem Tracks.closed_to_opened (hs : s.breaker.state = .closed) (ha : NoReset s a)
    (hstep : s.step cfg a = some s') :
    s'.breaker.state = .opened ↔
      ∃ i now c, a = .settle i true now ∧ s.calls[i]? = some c ∧
        c.call.settled = false ∧ c.admittedIn = s.period ∧
        cfg.failureThreshold ≤ ((s.outcomes ++ [true]).rtake cfg.windowSize).count true := by
  constructor
  · intro hopen
    obtain ⟨i, failed, now, c, rfl, hi, hu, hp⟩ :=
      h.live_of_moved (by simp [hs]) ha hstep (by simp [hs, hopen])
    obtain ⟨rfl, hf⟩ := ((h.settle_live hstep hi hu hp).1 hs).mp hopen
    exact ⟨i, now, c, rfl, hi, hu, hp, hf⟩
  · rintro ⟨i, now, c, rfl, hi, hu, hp, hf⟩
    exact ((h.settle_live hstep hi hu hp).1 hs).mpr ⟨rfl, hf⟩

/-- The `success_threshold`-th success of the period's own probes, and nothing else, closes
    a half-open circuit. -/
theorem Tracks.halfOpen_to_closed (hs : s.breaker.state = .halfOpen) (ha : NoReset s a)
    (hstep : s.step cfg a = some s') :
    s'.breaker.state = .closed ↔
      ∃ i now c, a = .settle i false now ∧ s.calls[i]? = some c ∧
        c.call.settled = false ∧ c.admittedIn = s.period ∧
        true ∉ s.outcomes ∧ s.outcomes.count false + 1 = cfg.successThreshold := by
  obtain ⟨hout, hlt⟩ := h.halfOpen hs
  have hnone : true ∉ s.outcomes := by rw [hout]; simp
  have hcount : s.outcomes.count false = s.breaker.probeSuccesses := by
    rw [hout, List.count_replicate_self]
  constructor
  · intro hclosed
    obtain ⟨i, failed, now, c, rfl, hi, hu, hp⟩ :=
      h.live_of_moved (by simp [hs]) ha hstep (by simp [hs, hclosed])
    obtain ⟨rfl, hge⟩ := ((h.settle_live hstep hi hu hp).2 hs).mp hclosed
    exact ⟨i, now, c, rfl, hi, hu, hp, hnone, by omega⟩
  · rintro ⟨i, now, c, rfl, hi, hu, hp, -, hth⟩
    exact ((h.settle_live hstep hi hu hp).2 hs).mpr ⟨rfl, by omega⟩

/-- A stale outcome moves nothing but the probe counter. -/
theorem Tracks.stale_outcome {failed : Bool} (hstep : s.step cfg (.settle i failed now) = some s')
    (hi : s.calls[i]? = some c) (hc : c.admittedIn < s.period) :
    s'.breaker.state = s.breaker.state ∧ s'.breaker.window = s.breaker.window ∧
      s'.breaker.probeSuccesses = s.breaker.probeSuccesses ∧
      s'.breaker.openUntil = s.breaker.openUntil := by
  obtain ⟨c', hi', hcase⟩ := h.settle_step hstep
  cases hi.symm.trans hi'
  have hne : c.admittedIn ≠ s.period := Nat.ne_of_lt hc
  cases hcase with
  | inert =>
    obtain ⟨n, hn⟩ := releaseCall_eq s.breaker c.call
    rw [hn]
    exact ⟨rfl, rfl, rfl, rfl⟩
  | counted _ hp | tripped _ hp | probeFailed _ hp | probePassed _ hp | recovered _ hp =>
    exact absurd hp hne

end

/-! ## Nobody is admitted before the deadline -/

/-- Still open until `t`, or the clock has reached it. -/
def ShutUntil (t : Time) (s : Sys) : Prop :=
  (s.breaker.state = .opened ∧ s.breaker.openUntil = t) ∨ t ≤ s.clock

theorem clock_mono (h : s.step cfg a = some s') : s.clock ≤ s'.clock := by
  cases step_move h with
  | @acquire now now' h₁ h₂ =>
    rcases acquire_cases cfg s now now' with e | ⟨-, e⟩ | ⟨-, -, e⟩ <;>
      rw [e] <;> exact h₁.trans h₂
  | settle _ h₁ | readState h₁ => exact h₁
  | release => rw [release_eq]; exact le_refl _
  | reset => exact le_refl _

/-- The step that opens the circuit sets the deadline from its own clock reading. -/
theorem Tracks.shutUntil_of_opening (h : Tracks cfg s) (hs : s.breaker.state ≠ .opened)
    (ha : NoReset s a) (hstep : s.step cfg a = some s') (hs' : s'.breaker.state = .opened) :
    ShutUntil (s'.clock + cfg.resetTimeout) s' := by
  obtain ⟨i, failed, now, c, rfl, -⟩ := h.live_of_moved hs ha hstep fun e => hs (e ▸ hs')
  obtain ⟨c', -, hcase⟩ := h.settle_step hstep
  cases hcase
  case inert => exact absurd (releaseCall_state.symm.trans hs') hs
  case counted hst _ | probePassed hst _ => exact absurd (hst.symm.trans hs') (by decide)
  case tripped | probeFailed => exact .inl ⟨rfl, rfl⟩
  case recovered => exact absurd hs' (by simp)

theorem ShutUntil.step (h : Tracks cfg s) (hsh : ShutUntil t s) (ha : NoReset s a)
    (hstep : s.step cfg a = some s') : ShutUntil t s' := by
  rcases hsh with ⟨hop, hu⟩ | hle
  case inr => exact .inr (hle.trans (clock_mono hstep))
  cases step_move hstep with
  | @acquire now now' _ h₂ =>
    by_cases hdue : t ≤ now
    · refine .inr (hdue.trans (h₂.trans ?_))
      rcases acquire_cases cfg s now now' with e | ⟨-, e⟩ | ⟨-, -, e⟩ <;> rw [e]
    · rw [acquire_of_early hop (hu ▸ not_le.mp hdue)]
      exact .inl ⟨hop, hu⟩
  | settle =>
    generalize Sys.settle .. = s' at hstep ⊢
    obtain ⟨c', hi', hcase⟩ := h.settle_step hstep
    cases hcase
    case inert =>
      obtain ⟨n, hn⟩ := releaseCall_eq s.breaker c'.call
      rw [hn]; exact .inl ⟨hop, hu⟩
    case counted hst _ | tripped hst _ | probeFailed hst | probePassed hst _ | recovered hst _ =>
      exact absurd (hst.symm.trans hop) (by decide)
  | @release _ c =>
    obtain ⟨n, hn⟩ := releaseCall_eq s.breaker c.call
    rw [release_eq, hn]; exact .inl ⟨hop, hu⟩
  | @readState now =>
    by_cases hdue : t ≤ now
    · exact .inr hdue
    · have he := expireOpenPeriod_of_early (b := s.breaker) (hu ▸ not_le.mp hdue)
      exact .inl (by simp [he, hop, hu])
  | reset => exact absurd rfl ha

theorem ShutUntil.run (hsh : ShutUntil t s) (h : Tracks cfg s)
    (hrun : Run (Sys.step cfg) NoReset s s') : ShutUntil t s' :=
  hrun.invariant_with (fun h _ => Tracks.step h) (fun h hsh => ShutUntil.step h hsh) h hsh

/-- A call is admitted only once the deadline has been read. -/
theorem ShutUntil.admission {now' : Time} (hsh : ShutUntil t s)
    (hstep : s.step cfg (.acquire now now') = some s') (hadm : s'.calls.length ≠ s.calls.length) :
    t ≤ now := by
  obtain ⟨h₁, -⟩ := step_move hstep
  rcases hsh with ⟨hop, hu⟩ | hle
  · by_contra hlt
    rw [acquire_of_early hop (hu ▸ not_le.mp hlt)] at hadm
    exact hadm rfl
  · exact hle.trans h₁

/-- **The breaker refines its three-state specification.** In every run without `reset`:
    a closed circuit opens exactly at a failure, of a call admitted since it closed, that
    makes `failure_threshold` of the last `window_size` outcomes failures; from an opening
    no later `acquire` admits before `reset_timeout` has passed; a half-open circuit closes
    exactly at the `success_threshold`-th success of its own probes, none having failed;
    and the outcome of a call of an earlier period is inert. -/
theorem breaker_refines_three_states {a : Action}
    (hrun : Run (Sys.step cfg) NoReset {} s) (ha : NoReset s a)
    (hstep : s.step cfg a = some s') :
    (s.breaker.state = .closed → (s'.breaker.state = .opened ↔
      ∃ i now c, a = .settle i true now ∧ s.calls[i]? = some c ∧
        c.call.settled = false ∧ c.admittedIn = s.period ∧
        cfg.failureThreshold ≤ ((s.outcomes ++ [true]).rtake cfg.windowSize).count true)) ∧
    (s.breaker.state ≠ .opened → s'.breaker.state = .opened →
      ∀ t u now now', Run (Sys.step cfg) NoReset s' t →
        t.step cfg (.acquire now now') = some u → u.calls.length ≠ t.calls.length →
        s'.clock + cfg.resetTimeout ≤ now) ∧
    (s.breaker.state = .halfOpen → (s'.breaker.state = .closed ↔
      ∃ i now c, a = .settle i false now ∧ s.calls[i]? = some c ∧
        c.call.settled = false ∧ c.admittedIn = s.period ∧
        true ∉ s.outcomes ∧ s.outcomes.count false + 1 = cfg.successThreshold)) ∧
    (∀ i failed now c, a = .settle i failed now → s.calls[i]? = some c →
      c.admittedIn < s.period →
        s'.breaker.state = s.breaker.state ∧ s'.breaker.window = s.breaker.window ∧
        s'.breaker.probeSuccesses = s.breaker.probeSuccesses ∧
        s'.breaker.openUntil = s.breaker.openUntil) := by
  have h := tracks_of_run hrun
  refine ⟨fun hs => h.closed_to_opened hs ha hstep, ?_,
    fun hs => h.halfOpen_to_closed hs ha hstep, ?_⟩
  · intro hs hs' t u now now' hrun' hacq hadm
    have hsh := h.shutUntil_of_opening hs ha hstep hs'
    exact (hsh.run (h.step hstep) hrun').admission hacq hadm
  · rintro i failed now c rfl hi hc
    exact h.stale_outcome hstep hi hc

/-- A configuration under which one failure opens, one success closes, and two probes may
    be out at once. -/
def eagerConfig : CircuitBreakerConfig where
  failureThreshold := 1
  windowSize := 1
  resetTimeout := 1
  successThreshold := 1
  halfOpenMaxCalls := 2
  one_le_failureThreshold := Nat.one_pos
  failureThreshold_le_windowSize := Nat.one_pos
  resetTimeout_pos := by decide +kernel
  one_le_successThreshold := Nat.one_pos
  one_le_halfOpenMaxCalls := Nat.two_pos

/-- The first failure of a fresh breaker under `eagerConfig`: it opens, and the law says
    why. -/
theorem breaker_refines_three_states_first_failure :
    let s : Sys := { calls := [⟨⟨0, false, false⟩, 0⟩] }
    let s' : Sys :=
      { breaker := { state := .opened, openUntil := 2, generation := 1 }
        calls := [⟨⟨0, false, true⟩, 0⟩], clock := 1, period := 1, since := 1 }
    s'.breaker.state = .opened ↔
      ∃ i now c, Action.settle 0 true 1 = .settle i true now ∧ s.calls[i]? = some c ∧
        c.call.settled = false ∧ c.admittedIn = s.period ∧
        eagerConfig.failureThreshold ≤
          ((s.outcomes ++ [true]).rtake eagerConfig.windowSize).count true := by
  have hrun : replay (Sys.step eagerConfig) NoReset {} [.acquire 0 0] =
      some { calls := [⟨⟨0, false, false⟩, 0⟩] } := by decide +kernel
  exact (breaker_refines_three_states (.of_replay hrun) (by decide) (by decide +kernel)).1 rfl

end Circuit

end Resilience
