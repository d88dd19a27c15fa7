import FastapiBoilerplate.Resilience.Circuit

/-!
# The bulkhead

`src/resilience/bulkhead.py`. Everything that touches the counters is synchronous; the one
suspension is `await waiter` inside `asyncio.timeout`, so an acquisition that queues is two
steps of the system — `acquire`, up to the suspension, and `resume`, from it — with any
number of other steps in between.

## What happens around the suspension

A queued caller is a `Waiter`: its future, and what has been done to its task since. The
event loop is modelled by what it may do, in any order:

* a timer set by `asyncio.timeout` fires, or somebody cancels the task. Both are
  `task.cancel()`: a future still pending is cancelled with it, one already done is left
  alone and the cancellation is delivered at the resumption instead;
* a task whose future is done is resumed. What `async with asyncio.timeout(...): await waiter`
  then does is `Waiter.ending`: the timer's own cancellation comes out as `TimeoutError`,
  unless the task was cancelled from outside as well.

So a hand-off may land before or after either interruption, and the resumption after all of
them — including the order the source marks as unreachable on CPython's own loop.

`served` is the only field the code does not have: the waiters slots were handed to, in
order.
-/

namespace Resilience

/-- `BulkheadRejection`. -/
inductive BulkheadRejection
  | queueFull
  | acquireTimeout
  | noBudget
  deriving DecidableEq

/-- The fields of `BulkheadConfig` that admission reads, with what `__post_init__` refuses
    about them. -/
structure BulkheadConfig where
  limit : ℕ := 20
  maxQueue : ℕ := 40
  acquireTimeout : Time := 1
  one_le_limit : 1 ≤ limit := by decide
  acquireTimeout_nonneg : 0 ≤ acquireTimeout := by decide

/-- `BulkheadFullError`, less the origin. -/
structure BulkheadFullError where
  reason : BulkheadRejection
  limit : ℕ
  queued : ℕ
  waited : Time
  retryAfter : Time
  deriving DecidableEq

namespace Bulkhead

/-! ## Futures and waiters -/

/-- The state of an `asyncio.Future[None]`. -/
inductive Future
  | pending
  | result
  | cancelled
  | exception (error : BulkheadFullError)
  deriving DecidableEq

namespace Future

def done : Future → Bool
  | pending => false
  | _ => true

/-- `_was_handed_a_slot`. -/
def wasHandedASlot : Future → Bool
  | result => true
  | _ => false

/-- `Future.cancel`: nothing, once done. -/
def cancel : Future → Future
  | pending => cancelled
  | f => f

end Future

/-- How the body of an `acquire` comes out of its wait. -/
inductive Ending
  | returned
  | timeoutError
  | raised (error : Option BulkheadFullError)
  deriving DecidableEq

/-- A call that queued: its future, whether `asyncio.timeout` armed a timer, when it
    started to wait, and what has happened to its task. -/
structure Waiter where
  future : Future := .pending
  armed : Bool
  started : Time
  timedOut : Bool := false
  cancelRequested : Bool := false
  resumed : Bool := false

/-- What `async with asyncio.timeout(timeout): await waiter` does at the resumption. A
    cancellation from outside wins over the timer's; `raised none` is `CancelledError`. -/
def Waiter.ending (x : Waiter) : Ending :=
  if x.cancelRequested then .raised none
  else if x.timedOut then .timeoutError
  else
    match x.future with
    | .result => .returned
    | .exception e => .raised (some e)
    | _ => .raised none

/-! ## The compartment -/

/-- The compartment and the calls it knows. Waiters and slots are named by position;
    `slots` holds each `BulkheadSlot`'s `released` latch. -/
structure Sys where
  inFlight : ℕ := 0
  waiters : List ℕ := []
  rejected : ℕ := 0
  waits : List Waiter := []
  slots : List Bool := []
  served : List ℕ := []

/-- What `acquire` answers: at once, or when its waiter is resumed. -/
inductive Outcome
  | slot (i : ℕ)
  | queued (w : ℕ)
  | refused (error : BulkheadFullError)
  | cancelled

namespace Sys

variable (cfg : BulkheadConfig) (s : Sys)

/-- `_error`. -/
def error (reason : BulkheadRejection) (waited : Time) : BulkheadFullError where
  reason := reason
  limit := cfg.limit
  queued := s.waiters.length
  waited := waited
  retryAfter := cfg.acquireTimeout

/-- `_reject`. -/
def reject (reason : BulkheadRejection) (waited : Time) : Sys × Outcome :=
  ({ s with rejected := s.rejected + 1 }, .refused (s.error cfg reason waited))

/-- A `BulkheadSlot` is constructed. -/
def grant : Sys × Outcome :=
  ({ s with slots := s.slots ++ [false] }, .slot s.slots.length)

/-- The loop of `_release`: skip the waiters that are done, find the first that is not. -/
def nextLive (waits : List Waiter) : List ℕ → List ℕ × Option (ℕ × Waiter)
  | [] => ([], none)
  | w :: ws =>
    match waits[w]? with
    | some x => if x.future.done then nextLive waits ws else (ws, some (w, x))
    | none => nextLive waits ws

/-- `_release`. -/
def release : Sys :=
  match nextLive s.waits s.waiters with
  | (ws, some (w, x)) =>
    { s with
      waiters := ws
      waits := s.waits.set w { x with future := .result }
      served := s.served ++ [w] }
  | (ws, none) => { s with waiters := ws, inFlight := s.inFlight - 1 }

/-- `_discard`. -/
def discard (w : ℕ) : Sys := { s with waiters := s.waiters.erase w }

/-- `_wait_budget`, from what `current_deadline()` says remains of the enclosing scope. -/
def waitBudget (remaining : Option Time) : Except BulkheadRejection (Option Time) :=
  match remaining with
  | none => .ok (some cfg.acquireTimeout)
  | some r =>
    if r ≤ 0 then .error .noBudget
    else if r ≤ cfg.acquireTimeout then .ok none
    else .ok (some cfg.acquireTimeout)

/-- `acquire`, up to its suspension. -/
def acquire (remaining : Option Time) (started : Time) : Sys × Outcome :=
  if s.inFlight < cfg.limit ∧ s.waiters = [] then
    grant { s with inFlight := s.inFlight + 1 }
  else if cfg.maxQueue ≤ s.waiters.length then s.reject cfg .queueFull 0
  else
    match waitBudget cfg remaining with
    | .error reason => s.reject cfg reason 0
    | .ok timeout =>
      ({ s with
          waiters := s.waiters ++ [s.waits.length]
          waits := s.waits ++ [{ armed := timeout.isSome, started := started }] },
        .queued s.waits.length)

/-- `acquire`, from its suspension: waiter `w`, whose record is `x`, runs again. -/
def resume (w : ℕ) (x : Waiter) (now : Time) : Sys × Outcome :=
  let s := { s with waits := s.waits.set w { x with resumed := true } }
  let r : Sys × Outcome :=
    match x.ending with
    | .returned => s.grant
    | .timeoutError =>
      if x.future.wasHandedASlot then s.grant
      else s.reject cfg .acquireTimeout (now - x.started)
    | .raised e =>
      let s := if x.future.wasHandedASlot then s.release else s
      (s, match e with
        | some e => .refused e
        | none => .cancelled)
  -- the `finally`
  (r.1.discard w, r.2)

/-- `BulkheadSlot.release`. -/
def releaseSlot (i : ℕ) (released : Bool) : Sys :=
  if released then s else release { s with slots := s.slots.set i true }

/-- `reset`, one waiter of its loop. -/
def failWaiter (waits : List Waiter) (e : BulkheadFullError) (w : ℕ) : List Waiter :=
  match waits[w]? with
  | some x => if x.future.done then waits else waits.set w { x with future := .exception e }
  | none => waits

/-- The loop of `reset`: the error each waiter is failed with counts those behind it. -/
def failWaiters (waits : List Waiter) : List ℕ → List Waiter
  | [] => waits
  | w :: ws => failWaiters (failWaiter waits (error cfg { s with waiters := ws } .queueFull 0) w) ws

/-- `reset`. -/
def reset : Sys :=
  { s with
    waits := s.failWaiters cfg s.waits s.waiters
    waiters := []
    inFlight := 0
    rejected := 0 }

/-- `task.cancel()` on a suspended waiter. -/
def interrupt (w : ℕ) (x : Waiter) : Sys :=
  { s with waits := s.waits.set w { x with future := x.future.cancel } }

end Sys

/-! ## The system -/

/-- What can happen to a compartment. -/
inductive Action
  | acquire (remaining : Option Time) (started : Time)
  | release (i : ℕ)
  | timeout (w : ℕ)
  | cancel (w : ℕ)
  | resume (w : ℕ) (now : Time)
  | reset
  deriving DecidableEq

/-- One action. A timer fires once, only if it was armed, and only while its waiter is
    suspended; a task is resumed once, and only after its future is done; a slot may be
    released again and again. -/
def Sys.step (cfg : BulkheadConfig) (s : Sys) : Action → Option Sys
  | .acquire remaining started => some (s.acquire cfg remaining started).1
  | .release i =>
    match s.slots[i]? with
    | some released => some (s.releaseSlot i released)
    | none => none
  | .timeout w =>
    match s.waits[w]? with
    | some x =>
      if x.armed ∧ x.timedOut = false ∧ x.resumed = false then
        some (s.interrupt w { x with timedOut := true })
      else none
    | none => none
  | .cancel w =>
    match s.waits[w]? with
    | some x =>
      if x.resumed = false then some (s.interrupt w { x with cancelRequested := true }) else none
    | none => none
  | .resume w now =>
    match s.waits[w]? with
    | some x =>
      if x.future.done ∧ x.resumed = false then some (s.resume cfg w x now).1 else none
    | none => none
  | .reset => some (s.reset cfg)

/-- Every action but the operator's `reset`. -/
def NoReset (_ : Sys) (a : Action) : Prop := a ≠ .reset

instance (s : Sys) (a : Action) : Decidable (NoReset s a) :=
  inferInstanceAs (Decidable (a ≠ .reset))

end Bulkhead

end Resilience
