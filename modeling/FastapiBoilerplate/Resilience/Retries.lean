import FastapiBoilerplate.Resilience.Transport

/-!
# Retries are safe, and every call is accounted for

What holds of every request in every state, however requests to one origin interleave and whatever
becomes of each attempt (`Accounted`). After an event that rules out another attempt (`Final`)
nothing more is sent: the loop is over, and a loop that is over takes no step. Whether an event is
final is said in terms of the outcome and the request, not of the reasons the code gives itself.
An open circuit is the refusal of this origin's breaker; a `CircuitOpenError` that the wrapped
transport raises is a transport error like others.

The calls of the breaker are counted in `ended`. The invariant is that a call has an entry there
when its latch is set, and that the latch is open exactly while its request is being sent; the
`finally` comes second and adds nothing.
-/

open Lib List Option

namespace Resilience

/-! ## What rules out another attempt -/

/-- This process ran out of capacity, or the caller gave up. -/
def Outcome.OwnDoing : Outcome → Prop
  | .transportError error => error.isLocalShortage = true
  | .cancelled => True
  | .response _ | .raised => False

/-- The far end may have received the request: unless no connection was made. -/
def Outcome.MayHaveArrived : Outcome → Prop
  | .transportError error =>
    error.isInstance .connectError = false ∧ error.isInstance .connectTimeout = false
  | .response _ | .cancelled | .raised => True

namespace Exchange

/-- An event after which the request must not be sent again. -/
def Final (x : Exchange) : Event → Prop
  | .refused | .interrupted _ => True
  | .sent _ => False
  | .answered _ outcome =>
    outcome.OwnDoing ∨
      outcome.MayHaveArrived ∧ x.request.mayRepeat x.policy.idempotencyKeyHeaders = false

end Exchange

def Event.isSent : Event → Bool
  | sent _ => true
  | refused | answered _ _ | interrupted _ => false

/-- How often a request was sent. -/
def Exchange.sends (x : Exchange) : ℕ := x.events.countP Event.isSent

/-- How often a call was settled or released. -/
def Transport.Sys.timesEnded (s : Transport.Sys) (i : ℕ) : ℕ := (s.ended.map Prod.fst).count i

/-- A request that keeps to its policy and answers for its calls. -/
structure Accounted (s : Transport.Sys) (x : Exchange) : Prop where
  bounded : x.sends ≤ x.policy.attempts
  replayed : x.request.isReplayable = false → x.sends ≤ 1
  final : ∀ before event after, x.events = before ++ event :: after → x.Final event →
    ∀ i, .sent i ∉ after
  ended : ∀ i, .sent i ∈ x.events → s.timesEnded i = if x.phase = .sending i then 0 else 1
  unrecorded : ∀ i outcome, .answered i outcome ∈ x.events → outcome.OwnDoing →
    ∀ failed, (i, some failed) ∉ s.ended

/-! ## The loop -/

def Phase.Waiting : Phase → Prop
  | closing _ _ | sleeping _ => True
  | acquiring | sending _ | done _ => False

theorem Phase.Waiting.ne_sending {p : Phase} (h : p.Waiting) (i : ℕ) : p ≠ .sending i := by
  rintro rfl
  exact h

theorem Phase.Waiting.ne_done {p : Phase} (h : p.Waiting) (result : Result) : p ≠ .done result := by
  rintro rfl
  exact h

variable {delay : ℚ}

namespace Exchange

variable {x : Exchange} {i : ℕ} {outcome : Outcome}

variable {policy : RetryPolicy} {request : Request} {attempt : ℕ} {error : Option TransportError}
  {replayable : Bool}

theorem delayBeforeNext_eq_delay {httpDate : Text → Except DateError ℚ}
    {response : Option Response} {readings : Readings}
    (h : policy.delayBeforeNext httpDate request attempt response error replayable readings =
      some (some delay)) :
    attempt < policy.attempts ∧ replayable = true ∧
      (request.mayRepeat policy.idempotencyKeyHeaders = false →
        ∃ e, error = some e ∧ e.requestWasSent = false) := by
  unfold RetryPolicy.delayBeforeNext at h
  split at h
  · cases h
  rename_i hreason
  unfold RetryPolicy.refusalReason at hreason
  split at hreason
  · cases hreason
  rename_i hattempt
  split at hreason
  · cases hreason
  rename_i hreplayable
  refine ⟨Nat.not_le.mp hattempt, by simpa using hreplayable, fun hrepeat => ?_⟩
  split at hreason
  · rename_i hsent
    cases error with
    | none => cases hsent
    | some e => exact ⟨e, rfl, by simpa using hsent⟩
  · simp [hrepeat] at hreason

/-- After a send the loop is over, or waits to try again: there are attempts left, the body can be
    sent again, and nothing rules it out. -/
theorem next_cases (httpDate : Text → Except DateError ℚ) (x : Exchange) (i : ℕ) (outcome : Outcome)
    (readings : Readings) :
    (∃ result, x.next httpDate i outcome readings = .done result) ∨
      (x.next httpDate i outcome readings).Waiting ∧ x.attempt < x.policy.attempts ∧
        x.replayable = true ∧ ¬ x.Final (.answered i outcome) := by
  unfold next
  cases outcome with
  | cancelled | raised => exact .inl ⟨_, rfl⟩
  | transportError =>
    dsimp only
    split
    · exact .inl ⟨_, rfl⟩
    rename_i hshortage
    split
    · exact .inl ⟨_, rfl⟩
    · exact .inl ⟨_, rfl⟩
    rename_i delay hdelay
    obtain ⟨hattempt, hreplayable, hsafe⟩ := delayBeforeNext_eq_delay hdelay
    refine .inr ⟨trivial, hattempt, hreplayable, ?_⟩
    rintro (hown | ⟨harrived, hrepeat⟩)
    · exact hshortage hown
    obtain ⟨e, ⟨⟩, hsent⟩ := hsafe hrepeat
    simp [TransportError.requestWasSent, harrived.1, harrived.2] at hsent
  | response =>
    dsimp only
    split
    · exact .inl ⟨_, rfl⟩
    split
    · exact .inl ⟨_, rfl⟩
    · exact .inl ⟨_, rfl⟩
    rename_i delay hdelay
    obtain ⟨hattempt, hreplayable, hsafe⟩ := delayBeforeNext_eq_delay hdelay
    refine .inr ⟨trivial, hattempt, hreplayable, ?_⟩
    rintro (hown | ⟨-, hrepeat⟩)
    · exact hown
    · obtain ⟨e, ⟨⟩, -⟩ := hsafe hrepeat

/-- What holds of a request by itself. -/
structure Paced (x : Exchange) : Prop where
  replayable : x.replayable = x.request.isReplayable
  sends_le : x.sends ≤ x.attempt
  acquiring : x.phase = .acquiring → x.sends < x.attempt
  attempt_le : x.attempt ≤ x.policy.attempts
  once : x.replayable = false → x.attempt ≤ 1
  waiting : x.phase.Waiting → x.attempt < x.policy.attempts ∧ x.replayable = true
  final : ∀ before event after, x.events = before ++ event :: after → x.Final event → after = []
  finished : ∀ event ∈ x.events, x.Final event → ∃ result, x.phase = .done result

theorem sends_append (events : List Event) (event : Event) :
    (events ++ [event]).countP Event.isSent =
      events.countP Event.isSent + if event.isSent then 1 else 0 := by
  rw [countP_append, countP_singleton]

theorem paced_new (policy : RetryPolicy) (request : Request) :
    Paced { policy, request, replayable := request.isReplayable } where
  replayable := rfl
  sends_le := Nat.zero_le 1
  acquiring _ := Nat.zero_lt_one
  attempt_le := policy.one_le_attempts
  once _ := Nat.le_refl 1
  waiting := nofun
  final := by
    intro before event after h
    cases before <;> cases h
  finished := nofun

theorem Paced.not_final (h : x.Paced) (hphase : ∀ result, x.phase ≠ .done result) :
    ∀ event ∈ x.events, ¬ x.Final event := by
  intro event hmem hfinal
  obtain ⟨result, hresult⟩ := h.finished event hmem hfinal
  exact hphase result hresult

/-- An event in a loop that is not over. If it rules out another attempt the loop ends with it. -/
theorem Paced.event (h : x.Paced) (hphase : ∀ result, x.phase ≠ .done result) {event : Event}
    {phase : Phase} (hevent : event.isSent = true → x.phase = .acquiring)
    (hacquiring : phase ≠ .acquiring)
    (hwaiting : phase.Waiting → x.attempt < x.policy.attempts ∧ x.replayable = true)
    (hover : x.Final event → ∃ result, phase = .done result) :
    Paced { x with phase, events := x.events ++ [event] } := by
  have hopen := h.not_final hphase
  refine { h with
    sends_le := ?sends_le
    acquiring := fun heq => absurd heq hacquiring
    waiting := hwaiting
    final := ?final
    finished := ?finished }
  case sends_le =>
    show (x.events ++ [event]).countP Event.isSent ≤ x.attempt
    rw [sends_append]
    split
    · exact h.acquiring (hevent ‹_›)
    · exact h.sends_le
  case final =>
    intro before last after heq hfinal
    rcases append_eq_append_cons heq with ⟨rest, hold⟩ | ⟨middle, -, hnew⟩
    · exact absurd hfinal (hopen last (hold ▸ mem_append_right _ mem_cons_self))
    cases middle with
    | nil => exact (List.cons.inj hnew).2.symm
    | cons _ middle =>
      have hnil := (List.cons.inj hnew).2
      cases middle <;> cases hnil
  case finished =>
    exact forall_mem_snoc (fun last hmem hfinal => absurd hfinal (hopen last hmem)) hover

theorem Paced.send (h : x.Paced) (hphase : x.phase = .acquiring) (i : ℕ) :
    Paced { x with phase := .sending i, events := x.events ++ [.sent i] } := by
  exact h.event (by simp [hphase]) (fun _ => hphase) nofun nofun fun hfinal => hfinal.elim

theorem Paced.wait (h : x.Paced) (hphase : x.phase.Waiting) (delay : ℚ) :
    Paced { x with phase := .sleeping delay } := by
  refine { h with acquiring := nofun, waiting := fun _ => h.waiting hphase, finished := ?_ }
  exact fun event hmem hfinal => absurd hfinal (h.not_final hphase.ne_done event hmem)

theorem Paced.wake (h : x.Paced) (hphase : x.phase.Waiting) : x.wake.Paced := by
  obtain ⟨hattempt, hreplayable⟩ := h.waiting hphase
  rw [Exchange.wake, if_pos hattempt]
  have hsends := h.sends_le
  exact { h with
    sends_le := Nat.le_succ_of_le hsends
    acquiring := fun _ => Nat.lt_succ_of_le hsends
    attempt_le := hattempt
    once := fun hnot => absurd (hreplayable.symm.trans hnot) nofun
    waiting := nofun
    finished := fun event hmem hfinal => absurd hfinal (h.not_final hphase.ne_done event hmem) }

theorem Paced.interrupt (h : x.Paced) (hphase : x.phase.Waiting) (how : Interruption) :
    (x.interrupt how).Paced :=
  h.event hphase.ne_done nofun nofun nofun fun _ => ⟨_, rfl⟩

end Exchange

/-! ## What is told to a call -/

namespace Transport

variable {cfg : CircuitBreakerConfig} {httpDate : Text → Except DateError ℚ}
  {s s₁ s' : Sys} {i : ℕ} {now : Time}

/-- A call was told something: its latch is set, and if it was open there is an entry for it. -/
structure Told (s : Sys) (i : ℕ) (failed : Option Bool) (s' : Sys) : Prop where
  handedOut : i < s.circuit.calls.length
  exchanges : s'.exchanges = s.exchanges
  length : s'.circuit.calls.length = s.circuit.calls.length
  latched : s'.settled i = true
  others : ∀ j, j ≠ i → s'.settled j = s.settled j
  ended : s'.ended = if s.settled i then s.ended else s.ended ++ [(i, failed)]

variable {circuit : Circuit.Sys} {failed : Option Bool} {e : ℕ} {x x' : Exchange}
  {outcome : Outcome} {exchanges : List Exchange}

variable {circuit' : Circuit.Sys} {failed' : Option Bool} {readings : Readings} {a : Action}
  {j : ℕ} {c : Circuit.Admitted}

theorem calls_of_report {report : Report}
    (h : circuit.step cfg (report.action i now) = some circuit') :
    ∃ c, circuit.calls[i]? = some c ∧ circuit'.calls =
      circuit.calls.set i { c with call := { c.call with settled := true } } := by
  cases report with
  | release =>
    rcases Circuit.step_move h with _ | _ | hc
    exact ⟨_, hc, by simp [Circuit.Sys.release, Circuit.Sys.latch]⟩
  | outcome =>
    rcases Circuit.step_move h with _ | ⟨hc, -⟩
    refine ⟨_, hc, ?_⟩
    unfold Circuit.Sys.settle Circuit.Sys.note
    split <;> simp [Circuit.Sys.latch]

theorem told_of_tell {report : Report} (h : s.tell cfg i report now = some s') :
    Told s i report.failed s' := by
  obtain ⟨circuit, hcircuit, rfl⟩ := map_eq_some_iff.mp h
  obtain ⟨c, hc, hcalls⟩ := calls_of_report hcircuit
  have hlt := lt_of_getElem? hc
  constructor
  case handedOut => exact hlt
  case exchanges => rfl
  case length => simp [hcalls]
  case latched =>
    show (circuit.calls[i]?).any _ = true
    rw [hcalls, getElem?_set_self hlt]
    rfl
  case others =>
    intro j hj
    show (circuit.calls[j]?).any _ = _
    rw [hcalls, getElem?_set_ne (Ne.symm hj)]
    rfl
  case ended => rfl

/-- What a call is told second does nothing. -/
theorem Told.trans (h : Told s i failed s₁) (h' : Told s₁ i failed' s') : Told s i failed s' where
  handedOut := h.handedOut
  exchanges := h'.exchanges.trans h.exchanges
  length := h'.length.trans h.length
  latched := h'.latched
  others j hj := (h'.others j hj).trans (h.others j hj)
  ended := by rw [h'.ended, if_pos h.latched, h.ended]

theorem told_of_answer (h : s.answer cfg httpDate e x i outcome now readings = some s') :
    ∃ s₁, Told s i ((Exchange.report outcome).bind Report.failed) s₁ ∧
      s' = { s₁ with exchanges := s.exchanges.set e { x with
        phase := x.next httpDate i outcome readings
        events := x.events ++ [.answered i outcome] } } := by
  obtain ⟨s₁, hreport, h⟩ := bind_eq_some_iff.mp h
  obtain ⟨s₂, hleave, rfl⟩ := map_eq_some_iff.mp h
  have htold : Told s i ((Exchange.report outcome).bind Report.failed) s₂ := by
    have hboth {report report' : Report} (h₁ : s.tell cfg i report now = some s₁)
        (h₂ : s₁.tell cfg i report' now = some s₂) : Told s i report.failed s₂ :=
      (told_of_tell h₁).trans (told_of_tell h₂)
    cases outcome with
    | raised =>
      cases hreport
      exact told_of_tell hleave
    | cancelled => exact hboth hreport hleave
    | transportError | response =>
      generalize x.next httpDate i _ readings = phase at hleave
      cases phase with
      | closing =>
        cases hleave
        exact told_of_tell hreport
      | acquiring | sending | sleeping | done => exact hboth hreport hleave
  exact ⟨s₂, htold, by rw [htold.exchanges]⟩

theorem calls_of_acquire {now' : Time} (h : circuit.step cfg (.acquire now now') = some circuit') :
    (∃ call period, (circuit.breaker.acquire cfg now now').2 = .ok call ∧ call.settled = false ∧
      circuit'.calls = circuit.calls ++ [⟨call, period⟩]) ∨
      ∃ after, (circuit.breaker.acquire cfg now now').2 = .error after ∧
        circuit'.calls = circuit.calls := by
  obtain ⟨-, -⟩ := Circuit.step_move h
  unfold Circuit.Sys.acquire
  let period := (circuit.observe (circuit.breaker.acquire cfg now now').1 now).period
  rcases circuit.breaker.acquire_cases cfg now now' with ⟨after, heq⟩ | ⟨-, heq⟩ | ⟨-, -, heq⟩
  · exact .inr ⟨after, by rw [heq], by simp [heq]⟩
  · refine .inl ⟨_, period, by rw [heq], rfl, ?_⟩
    simp only [period, heq, Circuit.observe_calls]
  · refine .inl ⟨_, period, by rw [heq], rfl, ?_⟩
    simp only [period, heq, Circuit.observe_calls]

/-! ## What a step does -/

inductive Effect (httpDate : Text → Except DateError ℚ) (s : Sys) : Sys → Prop
  | begin (policy : RetryPolicy) (request : Request) :
    Effect httpDate s { s with
      exchanges := s.exchanges ++ [{ policy, request, replayable := request.isReplayable }] }
  | watched {circuit : Circuit.Sys} (calls : circuit.calls = s.circuit.calls) :
    Effect httpDate s { s with circuit }
  | refused {e : ℕ} {x : Exchange} {circuit : Circuit.Sys} (here : s.exchanges[e]? = some x)
      (phase : x.phase = .acquiring) (calls : circuit.calls = s.circuit.calls) :
    Effect httpDate s { s with
      circuit
      exchanges := s.exchanges.set e { x with
        phase := .done .circuitOpen
        events := x.events ++ [.refused] } }
  | sent {e : ℕ} {x : Exchange} {circuit : Circuit.Sys} {c : Circuit.Admitted}
      (here : s.exchanges[e]? = some x) (phase : x.phase = .acquiring)
      (fresh : c.call.settled = false) (calls : circuit.calls = s.circuit.calls ++ [c]) :
    Effect httpDate s { s with
      circuit
      exchanges := s.exchanges.set e { x with
        phase := .sending s.circuit.calls.length
        events := x.events ++ [.sent s.circuit.calls.length] } }
  | answered {e i : ℕ} {x : Exchange} {outcome : Outcome} {s₁ : Sys} (readings : Readings)
      (here : s.exchanges[e]? = some x) (phase : x.phase = .sending i)
      (told : Told s i ((Exchange.report outcome).bind Report.failed) s₁) :
    Effect httpDate s { s₁ with exchanges := s.exchanges.set e { x with
      phase := x.next httpDate i outcome readings
      events := x.events ++ [.answered i outcome] } }
  | closed {e i : ℕ} {x : Exchange} {delay : ℚ} {s₁ : Sys} (here : s.exchanges[e]? = some x)
      (phase : x.phase = .closing i delay) (told : Told s i none s₁) :
    Effect httpDate s { s₁ with
      exchanges := s.exchanges.set e { x with phase := .sleeping delay } }
  | closingFailed {e i : ℕ} {x : Exchange} {delay : ℚ} {s₁ : Sys} (how : Interruption)
      (here : s.exchanges[e]? = some x) (phase : x.phase = .closing i delay)
      (told : Told s i none s₁) :
    Effect httpDate s { s₁ with exchanges := s.exchanges.set e (x.interrupt how) }
  | woken {e : ℕ} {x : Exchange} {delay : ℚ} (here : s.exchanges[e]? = some x)
      (phase : x.phase = .sleeping delay) :
    Effect httpDate s { s with exchanges := s.exchanges.set e x.wake }
  | sleepFailed {e : ℕ} {x : Exchange} {delay : ℚ} (how : Interruption)
      (here : s.exchanges[e]? = some x) (phase : x.phase = .sleeping delay) :
    Effect httpDate s { s with exchanges := s.exchanges.set e (x.interrupt how) }

theorem effect_of_step (h : s.step cfg httpDate a = some s') : Effect httpDate s s' := by
  cases a with simp only [Sys.step] at h
  | begin policy request =>
    cases h
    exact .begin policy request
  | acquire =>
    split at h <;> [skip; cases h]
    rename_i x hx
    split at h <;> [skip; cases h]
    rename_i hphase
    obtain ⟨circuit, hcircuit, rfl⟩ := map_eq_some_iff.mp h
    rcases calls_of_acquire hcircuit with ⟨call, period, hok, hfresh, hcalls⟩ |
      ⟨after, herr, hcalls⟩
    · rw [hok]
      exact .sent hx hphase hfresh hcalls
    · rw [herr]
      exact .refused hx hphase hcalls
  | answer e outcome now readings =>
    repeat' split at h
    any_goals cases h
    rename_i x hx _ i hphase
    obtain ⟨s₁, htold, rfl⟩ := told_of_answer h
    exact .answered readings hx hphase htold
  | closed e how =>
    split at h <;> [skip; cases h]
    rename_i x hx
    split at h <;> [skip; cases h]
    rename_i i delay hphase
    obtain ⟨s₁, hfinish, rfl⟩ := map_eq_some_iff.mp h
    have htold := told_of_tell hfinish
    rw [htold.exchanges]
    cases how with
    | none => exact .closed hx hphase htold
    | some how => exact .closingFailed how hx hphase htold
  | wake e how =>
    repeat' split at h
    all_goals cases h
    · rename_i x hx _ delay hphase _
      exact .woken hx hphase
    · rename_i x hx _ delay hphase _ how
      exact .sleepFailed how hx hphase
  | readState =>
    obtain ⟨circuit, hcircuit, rfl⟩ := map_eq_some_iff.mp h
    refine .watched ?_
    obtain ⟨-⟩ := Circuit.step_move hcircuit
    exact Circuit.observe_calls _ _ _
  | reset =>
    cases h
    exact .watched rfl

/-! ## The invariant -/

/-- A request and the calls it was given: each was told something, unless it is being sent. -/
structure Answers (s : Sys) (x : Exchange) : Prop where
  handedOut : ∀ i, .sent i ∈ x.events → i < s.circuit.calls.length
  settled : ∀ i, .sent i ∈ x.events → s.settled i = decide (x.phase ≠ .sending i)
  holds : ∀ i, x.phase = .sending i → .sent i ∈ x.events
  closing : ∀ i delay, x.phase = .closing i delay → .sent i ∈ x.events
  answered : ∀ i outcome, .answered i outcome ∈ x.events →
    .sent i ∈ x.events ∧ x.phase ≠ .sending i ∧
      ∀ failed, (i, some failed) ∈ s.ended →
        (Exchange.report outcome).bind Report.failed = some failed

structure Inv (s : Sys) : Prop where
  paced : ∀ x ∈ s.exchanges, x.Paced
  answers : ∀ x ∈ s.exchanges, Answers s x
  apart : ∀ (e e' : ℕ) (x x' : Exchange) (i : ℕ), s.exchanges[e]? = some x →
    s.exchanges[e']? = some x' → .sent i ∈ x.events → .sent i ∈ x'.events → e = e'
  counted : ∀ i, s.timesEnded i = if s.settled i then 1 else 0

theorem OwnDoing.report (h : outcome.OwnDoing) :
    (Exchange.report outcome).bind Report.failed = none := by
  cases outcome with
  | cancelled => rfl
  | transportError error =>
    have hshortage : error.isLocalShortage = true := h
    simp [Exchange.report, hshortage, Report.failed]
  | response | raised => exact h.elim

theorem Inv.accounted (h : Inv s) (hx : x ∈ s.exchanges) : Accounted s x := by
  have hpaced := h.paced x hx
  have hanswers := h.answers x hx
  constructor
  case bounded => exact hpaced.sends_le.trans hpaced.attempt_le
  case replayed =>
    intro hnot
    exact hpaced.sends_le.trans (hpaced.once (hpaced.replayable.trans hnot))
  case final =>
    intro before event after hevents hfinal i hmem
    rw [hpaced.final before event after hevents hfinal] at hmem
    cases hmem
  case ended =>
    intro i hi
    rw [h.counted, hanswers.settled i hi]
    by_cases hphase : x.phase = .sending i
    · simp [hphase]
    · simp [hphase]
  case unrecorded =>
    intro i outcome hi hown failed hmem
    have hsame := (hanswers.answered i outcome hi).2.2 failed hmem
    rw [OwnDoing.report hown] at hsame
    cases hsame

theorem settled_of_calls (h : circuit.calls = s.circuit.calls) (i : ℕ) :
    ({ s with circuit } : Sys).settled i = s.settled i := by
  rw [Sys.settled, Sys.settled, h]

theorem Told.counted (h : Told s i failed s')
    (hcounted : ∀ j, s.timesEnded j = if s.settled j then 1 else 0) (j : ℕ) :
    s'.timesEnded j = if s'.settled j then 1 else 0 := by
  have hj := hcounted j
  unfold Sys.timesEnded at hj ⊢
  rw [h.ended]
  by_cases hlatch : s.settled i = true
  · rw [if_pos hlatch, hj]
    by_cases hij : j = i
    · rw [hij, hlatch, h.latched]
    · rw [h.others j hij]
  · rw [if_neg hlatch, map_append, count_append, hj]
    by_cases hij : j = i
    · subst hij
      rw [if_neg hlatch, h.latched]
      simp
    · rw [h.others j hij]
      simp [Ne.symm hij]

theorem Told.mem_ended (h : Told s i failed s') (hj : (j, failed') ∈ s'.ended) :
    (j, failed') ∈ s.ended ∨ j = i ∧ failed' = failed := by
  rw [h.ended] at hj
  split at hj
  · exact .inl hj
  rcases mem_snoc.mp hj with hj | hj
  · exact .inl hj
  · cases hj
    exact .inr ⟨rfl, rfl⟩

/-- A request that another one's step does not concern. -/
theorem Answers.told (h : Answers s x) (htold : Told s i failed s') (hnot : .sent i ∉ x.events) :
    Answers s' x where
  handedOut j hj := htold.length.symm ▸ h.handedOut j hj
  settled j hj := by
    rw [htold.others j fun heq => hnot (heq ▸ hj)]
    exact h.settled j hj
  __ := h
  answered j outcome hj := by
    obtain ⟨hsent, hphase, hrecord⟩ := h.answered j outcome hj
    refine ⟨hsent, hphase, ?_⟩
    intro failed' hmem
    rcases htold.mem_ended hmem with hmem | ⟨heq, -⟩
    · exact hrecord failed' hmem
    · exact absurd (heq ▸ hsent) hnot

/-- The calls there were are as they were. -/
structure SameCalls (s s' : Sys) : Prop where
  length : s.circuit.calls.length ≤ s'.circuit.calls.length
  settled : ∀ i, s'.settled i = s.settled i
  ended : s'.ended = s.ended

theorem SameCalls.of_calls (h : circuit.calls = s.circuit.calls) :
    SameCalls s { s with circuit, exchanges } where
  length := by rw [h]
  settled := settled_of_calls h
  ended := rfl

theorem Told.sameCalls (h : Told s i failed s') (hi : s.settled i = true)
    (exchanges : List Exchange) : SameCalls s { s' with exchanges } where
  length := Nat.le_of_eq h.length.symm
  settled j := by
    by_cases hj : j = i
    · rw [hj, hi]
      exact h.latched
    · exact h.others j hj
  ended := by
    rw [h.ended, if_pos hi]

theorem SameCalls.of_append (hfresh : c.call.settled = false)
    (h : circuit.calls = s.circuit.calls ++ [c]) : SameCalls s { s with circuit, exchanges } where
  length := by rw [h, length_append]; exact Nat.le_add_right _ _
  settled j := by
    show (circuit.calls[j]?).any _ = (s.circuit.calls[j]?).any _
    rw [h]
    rcases Nat.lt_trichotomy j s.circuit.calls.length with hlt | rfl | hgt
    · rw [getElem?_append_left hlt]
    · rw [getElem?_concat_length, getElem?_eq_none (Nat.le_refl _)]
      simp [hfresh]
    · rw [getElem?_eq_none (Nat.le_of_lt hgt), getElem?_eq_none]
      rw [length_append]
      exact hgt
  ended := rfl

theorem Answers.same (h : Answers s x) (hsame : SameCalls s s') : Answers s' x where
  handedOut j hj := Nat.lt_of_lt_of_le (h.handedOut j hj) hsame.length
  settled j hj := (hsame.settled j).trans (h.settled j hj)
  __ := h
  answered := by
    rw [hsame.ended]
    exact h.answered

theorem SameCalls.counted (h : SameCalls s s')
    (hcounted : ∀ j, s.timesEnded j = if s.settled j then 1 else 0) (j : ℕ) :
    s'.timesEnded j = if s'.settled j then 1 else 0 := by
  rw [Sys.timesEnded, h.ended, h.settled]
  exact hcounted j

section

variable (h : Answers s x) (hphase : ∀ j, x.phase ≠ .sending j)

include h hphase

theorem Answers.move (hsent : ∀ j, .sent j ∈ x'.events ↔ .sent j ∈ x.events)
    (hanswered : ∀ j outcome, .answered j outcome ∈ x'.events → .answered j outcome ∈ x.events)
    (hphase' : ∀ j, x'.phase ≠ .sending j) (hclosing : ∀ j delay, x'.phase ≠ .closing j delay) :
    Answers s x' where
  handedOut j hj := h.handedOut j ((hsent j).mp hj)
  settled j hj := by
    rw [h.settled j ((hsent j).mp hj)]
    simp [hphase j, hphase' j]
  holds j hj := absurd hj (hphase' j)
  closing j delay hj := absurd hj (hclosing j delay)
  answered j outcome hj := by
    obtain ⟨hold, -, hrecord⟩ := h.answered j outcome (hanswered j outcome hj)
    exact ⟨(hsent j).mpr hold, hphase' j, hrecord⟩

theorem Answers.interrupt (how : Interruption) : Answers s (x.interrupt how) := by
  refine h.move hphase ?_ ?_ nofun nofun
  · intro j
    simp [Exchange.interrupt]
  · intro j outcome
    simp [Exchange.interrupt]

omit hphase in
/-- The call of a response that is being closed was settled when the response came. -/
theorem Answers.settled_of_closing (hclosing : x.phase = .closing i delay) :
    s.settled i = true := by
  rw [h.settled i (h.closing i delay hclosing), hclosing]
  simp

theorem Answers.wake : Answers s x.wake := by
  unfold Exchange.wake
  split
  · exact h.move hphase (fun _ => .rfl) (fun _ _ => id) nofun nofun
  · exact h.move hphase (fun _ => .rfl) (fun _ _ => id) nofun nofun

end

/-- The call that a closing response came by is the one that was sent. -/
theorem next_eq_closing (h : x.next httpDate i outcome readings = .closing j delay) : j = i := by
  unfold Exchange.next at h
  cases outcome with
  | cancelled | raised => cases h
  | transportError =>
    dsimp only at h
    split at h
    · cases h
    · split at h <;> cases h
  | response =>
    dsimp only at h
    split at h
    · cases h
    · split at h <;> cases h
      rfl

theorem next_ne_sending (x : Exchange) (outcome : Outcome) (readings : Readings) (j : ℕ) :
    x.next httpDate i outcome readings ≠ .sending j := by
  intro h
  rcases Exchange.next_cases httpDate x i outcome readings with ⟨result, hdone⟩ | ⟨hwaiting, -⟩
  · rw [hdone] at h
    cases h
  · exact hwaiting.ne_sending j h

/-- A call without an entry has none with an outcome. -/
theorem Inv.not_mem_ended (h : Inv s) (hi : s.settled i = false) (failed : Option Bool) :
    (i, failed) ∉ s.ended := by
  intro hmem
  have hcount := h.counted i
  rw [hi] at hcount
  have hmap : i ∈ s.ended.map Prod.fst := mem_map.mpr ⟨_, hmem, rfl⟩
  exact absurd hcount (Nat.ne_of_gt (count_pos_iff.mpr hmap))

theorem Inv.answer (h : Inv s) (hx : x ∈ s.exchanges) (hphase : x.phase = .sending i)
    (readings : Readings) (htold : Told s i ((Exchange.report outcome).bind Report.failed) s₁)
    (exchanges : List Exchange) :
    Answers { s₁ with exchanges } { x with
      phase := x.next httpDate i outcome readings
      events := x.events ++ [.answered i outcome] } := by
  have hold := h.answers x hx
  have hheld := hold.holds i hphase
  -- while it is being sent, the call is the exchange's only one that is not settled
  have hopen : s.settled i = false := by
    rw [hold.settled i hheld]
    simp [hphase]
  have hsent : ∀ j, .sent j ∈ x.events ++ [.answered i outcome] → .sent j ∈ x.events := by
    intro j hj
    simpa using hj
  constructor
  case handedOut => exact fun j hj => htold.length.symm ▸ hold.handedOut j (hsent j hj)
  case settled =>
    intro j hj
    have hnext : decide (x.next httpDate i outcome readings ≠ .sending j) = true :=
      decide_eq_true (next_ne_sending x outcome readings j)
    refine Eq.trans ?_ hnext.symm
    by_cases hji : j = i
    · rw [hji]
      exact htold.latched
    · refine (htold.others j hji).trans ?_
      rw [hold.settled j (hsent j hj), hphase]
      simp [Ne.symm hji]
  case holds => exact fun j hj => absurd hj (next_ne_sending x outcome readings j)
  case closing =>
    intro j delay hj
    rw [next_eq_closing hj]
    exact mem_append_left _ hheld
  case answered =>
    intro j outcome' hj
    rcases mem_snoc.mp hj with hj | hj
    · obtain ⟨hjsent, hjphase, hrecord⟩ := hold.answered j outcome' hj
      refine ⟨mem_append_left _ hjsent, next_ne_sending x outcome readings j, ?_⟩
      intro failed hmem
      rcases htold.mem_ended hmem with hmem | ⟨rfl, -⟩
      · exact hrecord failed hmem
      · exact absurd hphase hjphase
    · cases hj
      refine ⟨mem_append_left _ hheld, next_ne_sending x outcome readings i, ?_⟩
      intro failed hmem
      -- what is on record for this call was put there now
      rcases htold.mem_ended hmem with hmem | ⟨-, hrecord⟩
      · exact absurd hmem (h.not_mem_ended hopen _)
      · exact hrecord.symm

theorem Answers.send (h : Answers s x) (hphase : x.phase = .acquiring)
    (hfresh : c.call.settled = false) (hcalls : circuit.calls = s.circuit.calls ++ [c]) :
    Answers { s with circuit, exchanges } { x with
      phase := .sending s.circuit.calls.length
      events := x.events ++ [.sent s.circuit.calls.length] } := by
  have hsame : SameCalls s { s with circuit, exchanges } := .of_append hfresh hcalls
  have hold : ∀ j, .sent j ∈ x.events → s.circuit.calls.length ≠ j :=
    fun j hj => Nat.ne_of_gt (h.handedOut j hj)
  have hsent : ∀ j, .sent j ∈ x.events ++ [.sent s.circuit.calls.length] →
      .sent j ∈ x.events ∨ j = s.circuit.calls.length := by
    intro j hj
    simpa using hj
  constructor
  case handedOut =>
    intro j hj
    show j < circuit.calls.length
    rw [hcalls, length_append]
    rcases hsent j hj with hj | rfl
    · exact Nat.lt_succ_of_lt (h.handedOut j hj)
    · exact Nat.lt_succ_self _
  case settled =>
    intro j hj
    rw [hsame.settled j]
    rcases hsent j hj with hj | rfl
    · rw [h.settled j hj, hphase]
      simp [hold j hj]
    · simp [Sys.settled]
  case holds =>
    intro j hj
    cases hj
    exact mem_append_right _ mem_cons_self
  case closing => exact nofun
  case answered =>
    intro j outcome hj
    have hj : .answered j outcome ∈ x.events := by simpa using hj
    obtain ⟨hjsent, -, hrecord⟩ := h.answered j outcome hj
    refine ⟨mem_append_left _ hjsent, ?_, hrecord⟩
    intro heq
    exact hold j hjsent (Phase.sending.inj heq)

section

variable (h : Inv s) (hx : s.exchanges[e]? = some x)
  (hexchanges : s'.exchanges = s.exchanges.set e x')

include h hx hexchanges

theorem Inv.set (hpaced : x'.Paced) (hanswers : Answers s' x')
    (hothers : ∀ (e' : ℕ) (y : Exchange), e' ≠ e → s.exchanges[e']? = some y → Answers s' y)
    (hsent : ∀ j, .sent j ∈ x'.events → .sent j ∈ x.events ∨ s.circuit.calls.length ≤ j)
    (hcounted : ∀ j, s'.timesEnded j = if s'.settled j then 1 else 0) : Inv s' := by
  -- a call of `x'` is of no other request: it was of `x`, or is newer than all of them
  have hnew : ∀ (e' : ℕ) (y : Exchange) (j : ℕ), e' ≠ e → s.exchanges[e']? = some y →
      .sent j ∈ y.events → .sent j ∈ x'.events → False := by
    intro e' y j hne hy hjy hjx
    rcases hsent j hjx with hjx | hge
    · exact hne (h.apart e' e y x j hy hx hjy hjx)
    · have hlt := (h.answers y (mem_of_getElem? hy)).handedOut j hjy
      omega
  constructor
  case paced =>
    rw [hexchanges]
    exact forall_mem_set h.paced hpaced
  case answers =>
    intro y hy
    obtain ⟨e', he'⟩ := mem_iff_getElem?.mp hy
    rw [hexchanges] at he'
    rcases getElem?_set_cases he' with ⟨-, rfl⟩ | ⟨hne, hy⟩
    · exact hanswers
    · exact hothers e' y hne hy
  case apart =>
    intro e₁ e₂ y₁ y₂ j hy₁ hy₂ hj₁ hj₂
    rw [hexchanges] at hy₁ hy₂
    rcases getElem?_set_cases hy₁ with ⟨rfl, rfl⟩ | ⟨hne₁, hold₁⟩
    · rcases getElem?_set_cases hy₂ with ⟨rfl, -⟩ | ⟨hne₂, hold₂⟩
      · rfl
      · exact (hnew e₂ y₂ j hne₂ hold₂ hj₂ hj₁).elim
    · rcases getElem?_set_cases hy₂ with ⟨rfl, rfl⟩ | ⟨-, hold₂⟩
      · exact (hnew e₁ y₁ j hne₁ hold₁ hj₁ hj₂).elim
      · exact h.apart e₁ e₂ y₁ y₂ j hold₁ hold₂ hj₁ hj₂
  case counted => exact hcounted

theorem Inv.setQuietly (hsame : SameCalls s s') (hpaced : x'.Paced) (hanswers : Answers s x')
    (hsent : ∀ j, .sent j ∈ x'.events → .sent j ∈ x.events) : Inv s' :=
  h.set hx hexchanges hpaced (hanswers.same hsame)
    (fun _ y _ hy => (h.answers y (mem_of_getElem? hy)).same hsame)
    (fun j hj => .inl (hsent j hj)) (hsame.counted h.counted)

end

theorem Inv.begin (h : Inv s) (policy : RetryPolicy) (request : Request) :
    Inv { s with
      exchanges := s.exchanges ++ [{ policy, request, replayable := request.isReplayable }] } := by
  constructor
  case paced => exact forall_mem_snoc h.paced (Exchange.paced_new policy request)
  case answers =>
    exact forall_mem_snoc (fun y hy => (h.answers y hy).same (.of_calls rfl))
      ⟨nofun, nofun, nofun, nofun, nofun⟩
  case apart =>
    intro e₁ e₂ y₁ y₂ j hy₁ hy₂ hj₁ hj₂
    rcases getElem?_append_cases hy₁ with ⟨-, rfl⟩ | ⟨-, hy₁⟩
    · cases hj₁
    rcases getElem?_append_cases hy₂ with ⟨-, rfl⟩ | ⟨-, hy₂⟩
    · cases hj₂
    · exact h.apart e₁ e₂ y₁ y₂ j hy₁ hy₂ hj₁ hj₂
  case counted => exact h.counted

theorem Inv.effect (h : Inv s) (heffect : Effect httpDate s s') : Inv s' := by
  have hpaced {e : ℕ} {x : Exchange} (here : s.exchanges[e]? = some x) : x.Paced :=
    h.paced x (mem_of_getElem? here)
  have hanswers {e : ℕ} {x : Exchange} (here : s.exchanges[e]? = some x) : Answers s x :=
    h.answers x (mem_of_getElem? here)
  cases heffect with
  | begin policy request => exact h.begin policy request
  | watched calls =>
    have hsame : SameCalls s { s with circuit := _ } := .of_calls calls
    exact ⟨h.paced, fun y hy => (h.answers y hy).same hsame, h.apart, hsame.counted h.counted⟩
  | refused here phase calls =>
    refine h.setQuietly here rfl (.of_calls calls) ?_ ?_ ?_
    · exact (hpaced here).event (by simp [phase]) nofun nofun nofun fun _ => ⟨_, rfl⟩
    · exact (hanswers here).move (by simp [phase]) (by simp) (by simp) nofun nofun
    · simp
  | sent here phase fresh calls =>
    refine h.set here rfl ((hpaced here).send phase _)
      ((hanswers here).send phase fresh calls)
      (fun _ y _ hy => (hanswers hy).same (.of_append fresh calls)) ?_
      (SameCalls.counted (.of_append fresh calls) h.counted)
    intro j hj
    rcases mem_snoc.mp hj with hj | hj
    · exact .inl hj
    · cases hj
      exact .inr (Nat.le_refl _)
  | @answered e i x outcome s₁ readings here phase told =>
    have hheld := (hanswers here).holds _ phase
    have hgoes : ∀ result, x.phase ≠ .done result := by simp [phase]
    refine h.set here rfl ?_ (h.answer (mem_of_getElem? here) phase readings told _) ?_ ?_
      (told.counted h.counted)
    · rcases Exchange.next_cases httpDate x i outcome readings with
        ⟨result, hdone⟩ | ⟨hwaiting, hattempt, hreplayable, hfinal⟩
      · rw [hdone]
        exact (hpaced here).event hgoes nofun nofun nofun fun _ => ⟨result, rfl⟩
      · refine (hpaced here).event hgoes nofun ?_ (fun _ => ⟨hattempt, hreplayable⟩)
          fun hf => absurd hf hfinal
        · intro heq
          rw [heq] at hwaiting
          exact hwaiting
    · intro e' y hne hy
      -- a call belongs to the one exchange that sent it
      have hnot : .sent i ∉ y.events := fun hj => hne (h.apart e' e y x i hy here hj hheld)
      exact ((hanswers hy).told told hnot).same (.of_calls rfl)
    · intro j hj
      exact .inl (by simpa using hj)
  | @closed e i x delay s₁ here phase told =>
    have hold := hanswers here
    have hwaiting : x.phase.Waiting := phase ▸ trivial
    -- the call was settled when the response came, so closing tells it nothing new
    exact h.setQuietly here rfl (told.sameCalls (hold.settled_of_closing phase) _)
      ((hpaced here).wait hwaiting delay)
      (hold.move hwaiting.ne_sending (fun _ => .rfl) (fun _ _ => id) nofun nofun) fun _ => id
  | @closingFailed e i x delay s₁ how here phase told =>
    have hold := hanswers here
    have hwaiting : x.phase.Waiting := phase ▸ trivial
    refine h.setQuietly here rfl (told.sameCalls (hold.settled_of_closing phase) _)
      ((hpaced here).interrupt hwaiting how) (hold.interrupt hwaiting.ne_sending how) ?_
    simp [Exchange.interrupt]
  | @woken e x delay here phase =>
    have hwaiting : x.phase.Waiting := phase ▸ trivial
    refine h.setQuietly here rfl (.of_calls rfl) ((hpaced here).wake hwaiting)
      ((hanswers here).wake hwaiting.ne_sending) ?_
    unfold Exchange.wake
    split <;> exact fun _ => id
  | @sleepFailed e x delay how here phase =>
    have hwaiting : x.phase.Waiting := phase ▸ trivial
    refine h.setQuietly here rfl (.of_calls rfl) ((hpaced here).interrupt hwaiting how)
      ((hanswers here).interrupt hwaiting.ne_sending how) ?_
    simp [Exchange.interrupt]

theorem inv_fresh : Inv {} where
  paced := forall_mem_nil _
  answers := forall_mem_nil _
  apart _ _ _ _ _ := nofun
  counted _ := rfl

/-- Whatever comes of the attempts of any number of requests before one breaker: a request is sent
    at most as often as its policy allows, and once if its body cannot be sent again; nothing is
    sent after an event that rules it out; a call that is not being used was settled or released
    once, and a shortage or a cancellation left no outcome. -/
theorem retries_accounted (cfg : CircuitBreakerConfig) (httpDate : Text → Except DateError ℚ)
    {s : Sys} (hrun : Run (Sys.step cfg httpDate) Always {} s) :
    ∀ x ∈ s.exchanges, Accounted s x := by
  have hinv : Inv s := hrun.invariant (fun h _ hstep => h.effect (effect_of_step hstep)) inv_fresh
  exact fun x hx => hinv.accounted hx

/-- A `POST` with an idempotency key that is not answered the first time. -/
theorem retries_accounted_second_time : ∃ s x,
    Run (Sys.step {} fun _ => .error .typeOrValueError) Always {} s ∧ x ∈ s.exchanges ∧
      x.events = [.sent 0, .answered 0 (.transportError ⟨[.readTimeout]⟩), .sent 1,
        .answered 1 (.response ⟨200, none⟩)] ∧
      s.ended = [(0, some true), (1, some false)] ∧ Accounted s x := by
  have hrun := (Along.get_replay (Sys.step {} fun _ => .error .typeOrValueError) Always {}
    [.begin {} ⟨lit "POST", [lit "idempotency-key"], .syncByteStream⟩, .acquire 0 1 1,
      .answer 0 (.transportError ⟨[.readTimeout]⟩) 2 {}, .wake 0 none, .acquire 0 3 3,
      .answer 0 (.response ⟨200, none⟩) 4 {}] (by decide +kernel)).run
  exact ⟨_, _, hrun, getLast_mem (by decide +kernel), by decide +kernel, by decide +kernel,
    retries_accounted {} _ hrun _ (getLast_mem _)⟩

end Transport

end Resilience
