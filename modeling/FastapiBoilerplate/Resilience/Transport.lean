import FastapiBoilerplate.Decorators.Base
import FastapiBoilerplate.Lib.Text
import FastapiBoilerplate.Resilience.CircuitPeriods

/-!
# Requests that are tried again

`ResilientTransport` of `src/resilience/transport.py`, with the predicates of
`src/resilience/base.py` it asks: any number of requests to one origin, each in its own retry loop
and under its own policy, before the one breaker of that origin (`Circuit`).

A request is an `Exchange`. Its steps are the stretches between two awaits: ask the breaker and
send; take what came of it, down to the end of the `try` or to the `aclose` of a response that is
given up; the end of that `aclose`; the end of the sleep. What the wrapped transport does is up to
the environment, and so are clock readings, jitter and what is left of an enclosing deadline. An
exception of the wrapped transport is what `isinstance` can tell of it, so it may be of any number
of classes at once. What a date in a header comes to is a parameter here (`httpDate`) of which
nothing is assumed; `RetryAfter` has the one of the standard library.

Two things are remembered that the code does not keep. `events` says what one request went through,
in order. `ended` says which calls of the breaker were settled or released, and with what outcome:
an entry is made when `succeeded`, `failed` or `release` finds its call open, since a second one
does nothing.
-/

open Lib

namespace Resilience

/-! ## What is asked of a request, a response and an error -/

/-- The classes under `httpx.TransportError` that the code or httpx tells apart. -/
inductive TransportClass
  | connectTimeout
  | readTimeout
  | writeTimeout
  | poolTimeout
  | connectError
  | readError
  | writeError
  | closeError
  | proxyError
  | unsupportedProtocol
  | localProtocolError
  | remoteProtocolError
  | circuitOpenError
  | bulkheadFullError
  | bulkheadTimeoutError
  deriving DecidableEq

/-- An `httpx.TransportError`: the classes it is an instance of. -/
structure TransportError where
  classes : List TransportClass
  deriving DecidableEq

/-- What a request's body is kept in: a stream httpx can iterate again, or one that the first
    attempt uses up. -/
inductive BodyStream
  | syncByteStream
  | asyncByteStream
  deriving DecidableEq

/-- `httpx.Request`: the method, which httpx has put in upper case, and the names of the headers,
    which it keeps in lower case. -/
structure Request where
  method : Text
  headerNames : List Text
  stream : BodyStream

structure Response where
  statusCode : ℕ
  retryAfter : Option Text
  deriving DecidableEq

/-- `IDEMPOTENT_METHODS`. -/
def idempotentMethods : List Text :=
  [lit "GET", lit "HEAD", lit "OPTIONS", lit "PUT", lit "DELETE", lit "TRACE"]

/-- `DEFAULT_IDEMPOTENCY_KEY_HEADERS`. -/
def defaultIdempotencyKeyHeaders : List Text := [lit "idempotency-key", lit "paypal-request-id"]

/-- `RetryPolicy`. -/
structure RetryPolicy where
  attempts : ℕ := 3
  baseDelay : ℚ := 1 / 10
  maxDelay : ℚ := 5
  jitter : Bool := true
  idempotencyKeyHeaders : List Text := defaultIdempotencyKeyHeaders
  respectRetryAfter : Bool := true
  maxRetryAfter : ℚ := 30
  one_le_attempts : 1 ≤ attempts := by decide
  baseDelay_nonneg : 0 ≤ baseDelay := by decide +kernel
  baseDelay_le : baseDelay ≤ maxDelay := by decide +kernel
  maxRetryAfter_nonneg : 0 ≤ maxRetryAfter := by decide +kernel

/-- `PERMANENT_SERVER_STATUSES`. -/
def permanentServerStatuses : List ℕ := [501, 505]

def isFailureStatus (statusCode : ℕ) : Bool :=
  statusCode = 429 || (500 ≤ statusCode && statusCode ∉ permanentServerStatuses)

namespace TransportError

def isInstance (error : TransportError) (cls : TransportClass) : Bool := cls ∈ error.classes

def isLocalShortage (error : TransportError) : Bool :=
  error.isInstance .poolTimeout || error.isInstance .bulkheadFullError

def requestWasSent (error : TransportError) : Bool :=
  !(error.isInstance .connectError || error.isInstance .connectTimeout)

end TransportError

namespace Request

/-- `name in request.headers`. -/
def hasHeader (request : Request) (name : Text) : Bool := lowerAscii name ∈ request.headerNames

def mayRepeat (request : Request) (idempotencyKeyHeaders : List Text) : Bool :=
  upperAscii request.method ∈ idempotentMethods || idempotencyKeyHeaders.any request.hasHeader

def isReplayable (request : Request) : Bool := request.stream = .syncByteStream

end Request

/-! ## How long to wait -/

/-- An HTTP date that cannot be read: with an exception that the code catches, or with one that
    escapes, which is of another class or raised by `timestamp()`, outside of the `try`. -/
inductive DateError
  | typeOrValueError
  | other

/-- `float(n)`; none is `OverflowError`. -/
def floatOfInt (n : ℤ) : Option ℚ :=
  if (2 : ℤ) ^ 1024 - 2 ^ 970 ≤ |n| then none else some n

/-- `retry_after_seconds`: no wait, one in seconds, or (none) an exception that escapes. -/
def retryAfterSeconds (httpDate : Text → Except DateError ℚ) (now : ℚ) (response : Response) :
    Option (Option ℚ) :=
  match response.retryAfter with
  | none => some none
  | some raw =>
    let value := strip raw
    match readInt value with
    | some n => (floatOfInt n).map fun seconds => some (max 0 seconds)
    | none =>
      match httpDate value with
      | .error .typeOrValueError => some none
      | .error .other => none
      | .ok timestamp => some (some (max 0 (timestamp - now)))

/-- `backoff_delay` with the policy of the transport. -/
def backoffDelay (attempt : ℕ) (policy : RetryPolicy) (draw : ℚ) : ℚ :=
  Decorators.backoffDelay attempt policy.baseDelay policy.maxDelay policy.jitter draw

/-- What the environment decides while a delay is worked out: the generator, the wall clock, and
    what `current_deadline` has left. -/
structure Readings where
  draw : ℚ := 0
  wallClock : ℚ := 0
  remaining : Option ℚ := none

/-- `_delay_for`; the outer none is an exception that escapes. -/
def RetryPolicy.delayFor (policy : RetryPolicy) (httpDate : Text → Except DateError ℚ)
    (attempt : ℕ) (response : Option Response) (readings : Readings) : Option (Option ℚ) :=
  let backoff := backoffDelay attempt policy readings.draw
  match response with
  | none => some (some backoff)
  | some response =>
    if policy.respectRetryAfter then
      (retryAfterSeconds httpDate readings.wallClock response).map fun
        | none => some backoff
        | some seconds =>
          if policy.maxRetryAfter < seconds then none
          else some (seconds + policy.baseDelay * readings.draw)
    else some (some backoff)

inductive Refusal
  | attemptsExhausted
  | bodyNotReplayable
  | notIdempotent

/-- `_refusal_reason`. -/
def RetryPolicy.refusalReason (policy : RetryPolicy) (request : Request) (attempt : ℕ)
    (error : Option TransportError) (replayable : Bool) : Option Refusal :=
  if policy.attempts ≤ attempt then some .attemptsExhausted
  else if !replayable then some .bodyNotReplayable
  else if error.any fun error => !error.requestWasSent then none
  else if !request.mayRepeat policy.idempotencyKeyHeaders then some .notIdempotent
  else none

/-- `_delay_before_next`: a delay, or none to give up; the outer none is an exception that
    escapes. -/
def RetryPolicy.delayBeforeNext (policy : RetryPolicy) (httpDate : Text → Except DateError ℚ)
    (request : Request) (attempt : ℕ) (response : Option Response) (error : Option TransportError)
    (replayable : Bool) (readings : Readings) : Option (Option ℚ) :=
  match policy.refusalReason request attempt error replayable with
  | some _ => some none
  | none =>
    match policy.delayFor httpDate attempt response readings with
    | none => none
    | some none => some none
    | some (some delay) =>
      if readings.remaining.any fun remaining => remaining ≤ delay then some none
      else some (some delay)

/-! ## One request -/

/-- What came of a send. -/
inductive Outcome
  | response (response : Response)
  | transportError (error : TransportError)
  | cancelled
  | raised
  deriving DecidableEq

/-- How an `aclose` or a sleep was cut short. -/
inductive Interruption
  | cancelled
  | raised
  deriving DecidableEq

/-- How `handle_async_request` ended. -/
inductive Result
  | returned (response : Response)
  | circuitOpen
  | transportError (error : TransportError)
  | cancelled
  | raised
  deriving DecidableEq

/-- What a request went through. A call is named as the breaker's system names it. -/
inductive Event
  | refused
  | sent (call : ℕ)
  | answered (call : ℕ) (outcome : Outcome)
  | interrupted (how : Interruption)
  deriving DecidableEq

inductive Phase
  | acquiring
  | sending (call : ℕ)
  | closing (call : ℕ) (delay : ℚ)
  | sleeping (delay : ℚ)
  | done (result : Result)
  deriving DecidableEq

/-- `handle_async_request`, somewhere in its loop. -/
structure Exchange where
  policy : RetryPolicy
  request : Request
  replayable : Bool
  attempt : ℕ := 1
  phase : Phase := .acquiring
  events : List Event := []

/-- What a call of the breaker is told. -/
inductive Report
  | release
  | outcome (failed : Bool)

/-- The outcome that goes on record with it. -/
def Report.failed : Report → Option Bool
  | release => none
  | outcome failed => some failed

def Report.action (i : ℕ) (now : Time) : Report → Circuit.Action
  | release => .release i
  | outcome failed => .settle i failed now

namespace Exchange

/-- What the call is told before the `finally`; nothing if the exception is none of those that
    are caught. -/
def report : Outcome → Option Report
  | .response response => some (.outcome (isFailureStatus response.statusCode))
  | .transportError error => some (if error.isLocalShortage then .release else .outcome true)
  | .cancelled => some .release
  | .raised => none

/-- Where the loop goes on after a send. -/
def next (httpDate : Text → Except DateError ℚ) (x : Exchange) (call : ℕ) (outcome : Outcome)
    (readings : Readings) : Phase :=
  match outcome with
  | .cancelled => .done .cancelled
  | .raised => .done .raised
  | .transportError error =>
    if error.isLocalShortage then .done (.transportError error)
    else
      match x.policy.delayBeforeNext httpDate x.request x.attempt none (some error) x.replayable
        readings with
      | none => .done .raised
      | some none => .done (.transportError error)
      | some (some delay) => .sleeping delay
  | .response response =>
    if !isFailureStatus response.statusCode then .done (.returned response)
    else
      match x.policy.delayBeforeNext httpDate x.request x.attempt (some response) none x.replayable
        readings with
      | none => .done .raised
      | some none => .done (.returned response)
      | some (some delay) => .closing call delay

/-- After the sleep. The end of the loop is an `AssertionError`. -/
def wake (x : Exchange) : Exchange :=
  if x.attempt < x.policy.attempts then { x with attempt := x.attempt + 1, phase := .acquiring }
  else { x with phase := .done .raised }

/-- Cut short in an `aclose` or a sleep. -/
def interrupt (x : Exchange) (how : Interruption) : Exchange :=
  { x with
    phase := .done (match how with
      | .cancelled => .cancelled
      | .raised => .raised)
    events := x.events ++ [.interrupted how] }

end Exchange

/-! ## The system -/

namespace Transport

/-- The requests to one origin, and its breaker. -/
structure Sys where
  circuit : Circuit.Sys := {}
  exchanges : List Exchange := []
  ended : List (ℕ × Option Bool) := []

inductive Action
  | begin (policy : RetryPolicy) (request : Request)
  | acquire (e : ℕ) (now now' : Time)
  | answer (e : ℕ) (outcome : Outcome) (now : Time) (readings : Readings)
  | closed (e : ℕ) (how : Option Interruption)
  | wake (e : ℕ) (how : Option Interruption)
  | readState (now : Time)
  | reset

namespace Sys

/-- Whether a call has been settled or released. -/
def settled (s : Sys) (i : ℕ) : Bool := (s.circuit.calls[i]?).any fun c => c.call.settled

/-- `succeeded`, `failed` and `release` of a call. -/
def tell (cfg : CircuitBreakerConfig) (s : Sys) (i : ℕ) (report : Report) (now : Time) :
    Option Sys :=
  (s.circuit.step cfg (report.action i now)).map fun circuit =>
    { s with
      circuit
      ended := if s.settled i then s.ended else s.ended ++ [(i, report.failed)] }

/-- The `finally` of the loop. -/
def finish (cfg : CircuitBreakerConfig) (s : Sys) (i : ℕ) (now : Time) : Option Sys :=
  s.tell cfg i .release now

/-- What the outcome of a send has the call told. -/
def reportOn (cfg : CircuitBreakerConfig) (s : Sys) (i : ℕ) (outcome : Outcome) (now : Time) :
    Option Sys :=
  match Exchange.report outcome with
  | some report => s.tell cfg i report now
  | none => some s

/-- The end of the `try`, unless there is a response to close in it first. -/
def leaveTry (cfg : CircuitBreakerConfig) (s : Sys) (i : ℕ) (now : Time) : Phase → Option Sys
  | .closing _ _ => some s
  | .acquiring | .sending _ | .sleeping _ | .done _ => s.finish cfg i now

/-- The outcome of a send, to the end of the `try`, or to the `aclose` in it. -/
def answer (cfg : CircuitBreakerConfig) (httpDate : Text → Except DateError ℚ) (s : Sys) (e : ℕ)
    (x : Exchange) (i : ℕ) (outcome : Outcome) (now : Time) (readings : Readings) : Option Sys :=
  (s.reportOn cfg i outcome now).bind fun s =>
    let phase := x.next httpDate i outcome readings
    (s.leaveTry cfg i now phase).map fun s =>
      { s with
        exchanges := s.exchanges.set e { x with
          phase
          events := x.events ++ [.answered i outcome] } }

/-- One step; none if the action is not one that can come next. -/
def step (cfg : CircuitBreakerConfig) (httpDate : Text → Except DateError ℚ) (s : Sys) :
    Action → Option Sys
  | .begin policy request =>
    some { s with
      exchanges := s.exchanges ++ [{ policy, request, replayable := request.isReplayable }] }
  | .acquire e now now' =>
    match s.exchanges[e]? with
    | some x =>
      if x.phase = .acquiring then
        (s.circuit.step cfg (.acquire now now')).map fun circuit =>
          match (s.circuit.breaker.acquire cfg now now').2 with
          | .ok _ =>
            let call := s.circuit.calls.length
            { s with
              circuit
              exchanges := s.exchanges.set e { x with
                phase := .sending call
                events := x.events ++ [.sent call] } }
          | .error _ =>
            { s with
              circuit
              exchanges := s.exchanges.set e { x with
                phase := .done .circuitOpen
                events := x.events ++ [.refused] } }
      else none
    | none => none
  | .answer e outcome now readings =>
    match s.exchanges[e]? with
    | some x =>
      match x.phase with
      | .sending i => s.answer cfg httpDate e x i outcome now readings
      | _ => none
    | none => none
  | .closed e how =>
    match s.exchanges[e]? with
    | some x =>
      match x.phase with
      | .closing i delay =>
        (s.finish cfg i s.circuit.clock).map fun s =>
          let x := match how with
            | none => { x with phase := .sleeping delay }
            | some how => x.interrupt how
          { s with exchanges := s.exchanges.set e x }
      | _ => none
    | none => none
  | .wake e how =>
    match s.exchanges[e]? with
    | some x =>
      match x.phase with
      | .sleeping _ =>
        let x := match how with
          | none => x.wake
          | some how => x.interrupt how
        some { s with exchanges := s.exchanges.set e x }
      | _ => none
    | none => none
  | .readState now => (s.circuit.step cfg (.readState now)).map fun circuit => { s with circuit }
  | .reset => (s.circuit.step cfg .reset).map fun circuit => { s with circuit }

end Sys

end Transport

end Resilience
