import Mathlib.Algebra.Order.Ring.Rat
import FastapiBoilerplate.Lib.Lists
import FastapiBoilerplate.Lib.Run

/-!
# The pool of worker processes

`src/parallel/cpu.py`. A call that is admitted has a future in the executor (`Work`), a wrapper of
it in the event loop (`Wrapper`), and a caller who awaits the wrapper: directly, or, where the worker
cannot enforce a deadline and there is one, shielded and for so long.

## What happens to the wrapper

When the work ends the loop is told, and the wrapper is done (`notice`). When a caller who awaits it
directly is cancelled, the wrapper is cancelled with the task. Either way its callbacks then run, in
the order in which they were added: the one of `wrap_future`, which passes a cancellation on to the
executor's future (`check`), and the one that gives the slot back (`callback`).

The executor drops a call whose future is still pending. Its manager puts the calls on the queue of
the worker processes ahead of time, one more than there are workers (`enqueue`); from then on the
future counts as running, whether a worker has the call or not, and nothing but its end stops it.

The semaphore is never waited for: `_submit` takes a slot in the step in which it has seen one.

`returned` is the one field the code does not have: the calls whose slot was given back, in order.
-/

namespace Parallel

abbrev Seconds := ℚ

/-- `CpuPool.__init__`, with what it refuses; `max_workers` is given or derived. -/
structure CpuPool where
  maxWorkers : ℕ
  queueDepthPerWorker : ℕ := 4
  deadlineEnforced : Bool := true
  one_le_maxWorkers : 1 ≤ maxWorkers := by decide

/-- `capacity`. -/
def CpuPool.capacity (pool : CpuPool) : ℕ := pool.maxWorkers * (1 + pool.queueDepthPerWorker)

/-- The errors of the pool: `NotOffloadableError`, the three messages of
    `CpuPoolUnavailableError`, `CpuPoolOverloadedError` and `CpuTaskTimeoutError` with their details. -/
inductive PoolError
  | notOffloadable
  | notRunning
  | workersDied
  | shuttingDown
  | overloaded (capacity maxWorkers : ℕ)
  | taskTimeout (timeout : Option Seconds) (byWorker : Bool)
  deriving DecidableEq

/-- What a call raises, as far as `_submit` tells exceptions apart. -/
inductive Exn (ε : Type)
  | timeoutError
  | brokenExecutor
  | other (error : ε)
  deriving DecidableEq

/-- How the executor's future ends. -/
inductive Ending (ρ ε : Type)
  | returned (value : ρ)
  | raised (error : Exn ε)
  | workerDeadline
  | cancelled
  deriving DecidableEq

/-- The executor's future: pending, on the queue of the workers, in a worker, or done. -/
inductive Work (ρ ε : Type)
  | queued
  | called
  | running
  | ended (ending : Ending ρ ε)
  deriving DecidableEq

/-- The wrapper: nothing yet, cancelled and the executor not told, done and the slot not given back,
    or all callbacks run. -/
inductive Wrapper
  | pending
  | cancelled
  | done
  | released
  deriving DecidableEq

/-- What awaiting `_submit` comes to. -/
inductive Result (ρ ε : Type)
  | returned (value : ρ)
  | raised (error : ε)
  | failed (error : PoolError)
  | cancelled
  deriving DecidableEq

/-- A call that was admitted. -/
structure Call (ρ ε : Type) where
  executor : ℕ
  timeout : Option Seconds
  work : Work ρ ε := .queued
  wrapper : Wrapper := .pending
  result : Option (Result ρ ε) := none

inductive Executor
  | alive
  | broken
  | shutDown

/-- Executors and calls are named by position. -/
structure Sys (ρ ε : Type) where
  slots : ℕ
  executor : Option ℕ := none
  executors : List Executor := []
  calls : List (Call ρ ε) := []
  returned : List ℕ := []

inductive Action (ρ ε : Type)
  | start
  | shutdown
  | submit (offloadable : Bool) (timeout : Option Seconds)
  | enqueue (i : ℕ)
  | begin (i : ℕ)
  | finish (i : ℕ) (ending : Ending ρ ε)
  | die (x : ℕ)
  | notice (i : ℕ)
  | check (i : ℕ)
  | callback (i : ℕ)
  | timeout (i : ℕ)
  | cancel (i : ℕ)
  | resume (i : ℕ)

section
variable {ρ ε : Type}

def Work.hasEnded : Work ρ ε → Bool
  | .ended _ => true
  | _ => false

/-- `future.running()`. -/
def Work.isRunning : Work ρ ε → Bool
  | .called | .running => true
  | _ => false

/-- `future.cancel()`, which does nothing to a future that is running. -/
def Work.cancel : Work ρ ε → Work ρ ε
  | .queued => .ended .cancelled
  | work => work

/-- The worker processes die under a call. -/
def Work.die : Work ρ ε → Work ρ ε
  | .ended ending => .ended ending
  | _ => .ended (.raised .brokenExecutor)

/-- `wrapped.cancel()`: nothing, once done. -/
def Wrapper.cancel : Wrapper → Wrapper
  | .pending => .cancelled
  | wrapper => wrapper

/-- The caller awaits the wrapper itself. -/
def Call.direct (pool : CpuPool) (c : Call ρ ε) : Bool :=
  c.timeout.isNone || pool.deadlineEnforced

/-- How the work of a call that runs can end: a worker's timer needs a deadline that it enforces. -/
def Call.mayEnd (pool : CpuPool) (c : Call ρ ε) : Ending ρ ε → Bool
  | .returned _ | .raised _ => true
  | .workerDeadline => c.timeout.isSome && pool.deadlineEnforced
  | .cancelled => false

/-- What the `await` at the end of `_submit` comes to when the call has ended. -/
def Call.outcome (c : Call ρ ε) : Ending ρ ε → Result ρ ε
  | .returned value => .returned value
  | .workerDeadline => .failed (.taskTimeout c.timeout true)
  | .raised .timeoutError => .failed (.taskTimeout c.timeout false)
  | .raised .brokenExecutor => .failed .workersDied
  | .raised (.other error) => .raised error
  | .cancelled => .cancelled

namespace Sys

variable (pool : CpuPool) (s : Sys ρ ε)

def initial : Sys ρ ε := { slots := pool.capacity }

/-- `start`. -/
def start : Sys ρ ε :=
  match s.executor with
  | some _ => s
  | none =>
    { s with executor := some s.executors.length, executors := s.executors ++ [.alive] }

/-- `shutdown`: what is in the executor runs to its end. -/
def shutdown : Sys ρ ε :=
  match s.executor with
  | none => s
  | some x => { s with executor := none, executors := s.executors.set x .shutDown }

/-- `_replace_broken_executor`. -/
def replaceBrokenExecutor (broken : ℕ) : Sys ρ ε :=
  if s.executor = some broken then
    { s with executor := some s.executors.length, executors := s.executors ++ [.alive] }
  else s

/-- `_submit`, up to its last `await`. A slot that is taken for a submission that fails is given back
    in the same step. -/
def submit (offloadable : Bool) (timeout : Option Seconds) : Sys ρ ε × Option PoolError :=
  match s.executor with
  | none => (s, some .notRunning)
  | some x =>
    if !offloadable then (s, some .notOffloadable)
    else if s.slots = 0 then (s, some (.overloaded pool.capacity pool.maxWorkers))
    else
      match s.executors[x]? with
      | some .alive =>
        ({ s with slots := s.slots - 1, calls := s.calls ++ [{ executor := x, timeout }] }, none)
      | some .broken => (s.replaceBrokenExecutor x, some .workersDied)
      | some .shutDown | none => (s, some .shuttingDown)

/-- The worker processes of an executor die. -/
def die (x : ℕ) : Sys ρ ε :=
  { s with
    executors := s.executors.set x .broken
    calls := s.calls.map fun c => if c.executor = x then { c with work := c.work.die } else c }

/-- The done callback that gives the slot back. -/
def callback (i : ℕ) (c : Call ρ ε) : Sys ρ ε :=
  { s with
    slots := s.slots + 1
    calls := s.calls.set i { c with wrapper := .released }
    returned := s.returned ++ [i] }

/-- The last `await` of `_submit`. -/
def resume (i : ℕ) (c : Call ρ ε) (ending : Ending ρ ε) : Sys ρ ε :=
  let s := { s with calls := s.calls.set i { c with result := some (c.outcome ending) } }
  match ending with
  | .raised .brokenExecutor => s.replaceBrokenExecutor c.executor
  | _ => s

/-- How many calls are on the queue of an executor's workers. -/
def onQueue (x : ℕ) : ℕ := s.calls.countP fun c => c.executor = x && c.work matches .called

/-- A call goes on, if it is in a state to. -/
def update (i : ℕ) (next : Call ρ ε → Option (Call ρ ε)) : Option (Sys ρ ε) :=
  (s.calls[i]?).bind fun c => (next c).map fun c => { s with calls := s.calls.set i c }

def step (pool : CpuPool) (s : Sys ρ ε) : Action ρ ε → Option (Sys ρ ε)
  | .start => some s.start
  | .shutdown => some s.shutdown
  | .submit offloadable timeout => some (s.submit pool offloadable timeout).1
  | .enqueue i =>
    s.update i fun c =>
      if c.work matches .queued && s.onQueue c.executor ≤ pool.maxWorkers then
        some { c with work := .called }
      else none
  | .begin i =>
    s.update i fun c => if c.work matches .called then some { c with work := .running } else none
  | .finish i ending =>
    s.update i fun c =>
      if c.work matches .running && c.mayEnd pool ending then
        some { c with work := .ended ending }
      else none
  | .die x => if x < s.executors.length then some (s.die x) else none
  | .notice i =>
    s.update i fun c =>
      if c.work.hasEnded && c.wrapper = .pending then some { c with wrapper := .done } else none
  | .check i =>
    s.update i fun c =>
      if c.wrapper = .cancelled then some { c with wrapper := .done, work := c.work.cancel }
      else none
  | .callback i =>
    (s.calls[i]?).bind fun c => if c.wrapper = .done then some (s.callback i c) else none
  | .timeout i =>
    s.update i fun c =>
      if c.result.isNone && !c.direct pool then
        some { c with result := some (.failed (.taskTimeout c.timeout false)) }
      else none
  | .cancel i =>
    s.update i fun c =>
      if c.result.isNone then
        some { c with
          result := some .cancelled
          wrapper := if c.direct pool then c.wrapper.cancel else c.wrapper }
      else none
  | .resume i =>
    (s.calls[i]?).bind fun c =>
      match c.wrapper, c.work, c.result with
      | .done, .ended ending, none | .released, .ended ending, none => some (s.resume i c ending)
      | _, _, _ => none

end Sys

end

end Parallel
