import Mathlib.Algebra.Order.Ring.Rat
import Mathlib.Data.List.DropRight
import FastapiBoilerplate.Lib.Run

/-!
# The circuit breaker

`src/resilience/circuit.py`, function by function: the breaker's record, the calls it hands
out, and the six private transitions. Every method of the source is synchronous, so each of
them is one function here and one step of the system below.

Time is `ℚ`: the source reads a monotonic clock in seconds and only ever compares readings
and adds `reset_timeout` to one. A method that reads the clock twice takes two readings —
`acquire` does, once to expire the open period and once to say how long to stay away.

## The system, and what it remembers

`Sys` is one breaker together with every call it has handed out, addressed by position.
Beside the code's own state it remembers three things the code does not, none of which any
transition reads: the number of the current *period* (a period ends whenever the state
changes), the clock reading at which it began, and the outcomes, oldest first, of the calls
that were admitted in it. They are the vocabulary of the properties — "a call admitted in an
earlier period", "the last `window_size` outcomes of calls admitted since the circuit last
closed" — stated without the generation counter that implements them.
-/

namespace Resilience

/-- Clock readings and durations, in seconds. -/
abbrev Time := ℚ

/-! ## Configuration and state -/

inductive CircuitState
  | closed
  | opened
  | halfOpen
  deriving DecidableEq

/-- `CircuitBreakerConfig`, with what `__post_init__` refuses carried as fields. -/
structure CircuitBreakerConfig where
  failureThreshold : ℕ := 5
  windowSize : ℕ := 20
  resetTimeout : Time := 30
  successThreshold : ℕ := 2
  halfOpenMaxCalls : ℕ := 1
  one_le_failureThreshold : 1 ≤ failureThreshold := by decide
  failureThreshold_le_windowSize : failureThreshold ≤ windowSize := by decide
  resetTimeout_pos : 0 < resetTimeout := by decide +kernel
  one_le_successThreshold : 1 ≤ successThreshold := by decide
  one_le_halfOpenMaxCalls : 1 ≤ halfOpenMaxCalls := by decide

/-- The mutable fields of `CircuitBreaker`. `window` is the `deque(maxlen=window_size)`,
    oldest first; `true` is a failure. -/
structure CircuitBreaker where
  state : CircuitState := .closed
  window : List Bool := []
  openUntil : Time := 0
  generation : ℕ := 0
  probesInFlight : ℕ := 0
  probeSuccesses : ℕ := 0
  deriving DecidableEq

/-- `CircuitCall`, less the reference back to its breaker. -/
structure CircuitCall where
  generation : ℕ
  probe : Bool
  settled : Bool := false
  deriving DecidableEq

namespace CircuitBreaker

variable (cfg : CircuitBreakerConfig) (b : CircuitBreaker)

/-! ## The private transitions -/

/-- `_expire_open_period`. -/
def expireOpenPeriod (now : Time) : CircuitBreaker :=
  if b.state = .opened ∧ b.openUntil ≤ now then
    { b with state := .halfOpen, probesInFlight := 0, probeSuccesses := 0 }
  else b

/-- `_release_probe`. -/
def releaseProbe : CircuitBreaker :=
  -- `max(0, n - 1)`, which is subtraction on `ℕ`
  { b with probesInFlight := b.probesInFlight - 1 }

/-- `_open`. -/
def open' (now : Time) : CircuitBreaker :=
  { b with
    state := .opened
    openUntil := now + cfg.resetTimeout
    window := []
    probesInFlight := 0
    probeSuccesses := 0
    generation := b.generation + 1 }

/-- `failures_in_window`. -/
def failuresInWindow : ℕ := b.window.count true

/-- `_record_probe`. The closing branch leaves `_probes_in_flight` alone, as the source
    does. -/
def recordProbe (failed : Bool) (now : Time) : CircuitBreaker :=
  if failed then b.open' cfg now
  else if b.probeSuccesses + 1 < cfg.successThreshold then
    { b with probeSuccesses := b.probeSuccesses + 1 }
  else
    { b with
      state := .closed
      window := []
      probeSuccesses := 0
      generation := b.generation + 1 }

/-- `self._window.append(failed)` on a deque of at most `window_size` elements. -/
def pushWindow (failed : Bool) : CircuitBreaker :=
  { b with window := (b.window ++ [failed]).rtake cfg.windowSize }

/-- `_record`. -/
def record (generation : ℕ) (failed : Bool) (now : Time) : CircuitBreaker :=
  if generation ≠ b.generation then b
  else if b.state = .halfOpen then b.recordProbe cfg failed now
  else
    let b' := b.pushWindow cfg failed
    if failed ∧ cfg.failureThreshold ≤ b'.failuresInWindow then b'.open' cfg now else b'

/-! ## The public operations -/

/-- `acquire`: the breaker afterwards, and the call or the `retry_after` of the
    `CircuitOpenError`. `now` is the reading that may expire the open period, `now'` the
    one the rejection is computed from. -/
def acquire (now now' : Time) : CircuitBreaker × Except Time CircuitCall :=
  let b' := b.expireOpenPeriod now
  if b'.state = .opened then (b', .error (max 0 (b'.openUntil - now')))
  else if b'.state = .halfOpen ∧ cfg.halfOpenMaxCalls ≤ b'.probesInFlight then
    (b', .error (max 0 0))
  else if b'.state = .halfOpen then
    ({ b' with probesInFlight := b'.probesInFlight + 1 },
      .ok { generation := b'.generation, probe := true })
  else (b', .ok { generation := b'.generation, probe := false })

/-- `CircuitCall.release`, on the breaker; the call's own latch is flipped by the caller. -/
def releaseCall (call : CircuitCall) : CircuitBreaker :=
  if call.settled then b else if call.probe then b.releaseProbe else b

/-- `CircuitCall._settle`, on the breaker. -/
def settleCall (call : CircuitCall) (failed : Bool) (now : Time) : CircuitBreaker :=
  if call.settled then b
  else (if call.probe then b.releaseProbe else b).record cfg call.generation failed now

/-- `reset`. -/
def reset : CircuitBreaker :=
  { b with
    state := .closed
    window := []
    probesInFlight := 0
    probeSuccesses := 0
    generation := b.generation + 1 }

end CircuitBreaker

/-! ## The system -/

namespace Circuit

/-- A call handed out, and the period it was admitted in. -/
structure Admitted where
  call : CircuitCall
  admittedIn : ℕ
  deriving DecidableEq

/-- One breaker, the calls it has handed out, and the history the properties are stated
    in (`period`, `since`, `outcomes`). -/
structure Sys where
  breaker : CircuitBreaker := {}
  calls : List Admitted := []
  clock : Time := 0
  period : ℕ := 0
  since : Time := 0
  outcomes : List Bool := []
  deriving DecidableEq

/-- What can happen to a breaker. `i` names a call by the order it was handed out in. -/
inductive Action
  | acquire (now now' : Time)
  | settle (i : ℕ) (failed : Bool) (now : Time)
  | release (i : ℕ)
  | readState (now : Time)
  | reset
  deriving DecidableEq

namespace Sys

/-- Install the breaker a step answered, opening a new period if its state moved. -/
def observe (s : Sys) (b : CircuitBreaker) (now : Time) : Sys :=
  if b.state = s.breaker.state then { s with breaker := b }
  else { s with breaker := b, period := s.period + 1, since := now, outcomes := [] }

/-- Flip the latch of the call at `i`. -/
def latch (s : Sys) (i : ℕ) (c : Admitted) : Sys :=
  { s with calls := s.calls.set i { c with call := { c.call with settled := true } } }

/-- Note the outcome of a call, if it was admitted in the current period and has none. -/
def note (s : Sys) (c : Admitted) (failed : Bool) : Sys :=
  if c.call.settled = false ∧ c.admittedIn = s.period then
    { s with outcomes := s.outcomes ++ [failed] }
  else s

/-- `acquire` in the system: the admitted call is filed under the period it was admitted
    in, which is the new one if this very call ended the open period. -/
def acquire (cfg : CircuitBreakerConfig) (s : Sys) (now now' : Time) : Sys :=
  let r := s.breaker.acquire cfg now now'
  let s' := { s.observe r.1 now with clock := now' }
  match r.2 with
  | .ok call => { s' with calls := s'.calls ++ [⟨call, s'.period⟩] }
  | .error _ => s'

/-- `succeeded` and `failed` in the system. -/
def settle (cfg : CircuitBreakerConfig) (s : Sys) (i : ℕ) (c : Admitted) (failed : Bool)
    (now : Time) : Sys :=
  let s' := ((s.note c failed).latch i c).observe (s.breaker.settleCall cfg c.call failed now) now
  { s' with clock := now }

/-- `release` in the system. It reads no clock. -/
def release (s : Sys) (i : ℕ) (c : Admitted) : Sys :=
  (s.latch i c).observe (s.breaker.releaseCall c.call) s.clock

/-- One action. Clock readings never go back, and only calls that were handed out can be
    settled or released — any number of times. -/
def step (cfg : CircuitBreakerConfig) (s : Sys) : Action → Option Sys
  | .acquire now now' =>
    if s.clock ≤ now ∧ now ≤ now' then some (s.acquire cfg now now') else none
  | .settle i failed now =>
    match s.calls[i]? with
    | some c => if s.clock ≤ now then some (s.settle cfg i c failed now) else none
    | none => none
  | .release i =>
    match s.calls[i]? with
    | some c => some (s.release i c)
    | none => none
  | .readState now =>
    if s.clock ≤ now then
      some { s.observe (s.breaker.expireOpenPeriod now) now with clock := now }
    else none
  | .reset =>
    some { s with breaker := s.breaker.reset, period := s.period + 1, since := s.clock,
                  outcomes := [] }

end Sys

/-- The runs the properties are about: everything but the operator's `reset`. -/
def NoReset (_ : Sys) (a : Action) : Prop := a ≠ .reset

instance (s : Sys) (a : Action) : Decidable (NoReset s a) :=
  inferInstanceAs (Decidable (a ≠ .reset))

end Circuit

end Resilience
