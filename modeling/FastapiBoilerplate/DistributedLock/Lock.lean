import FastapiBoilerplate.Lib.Run
import FastapiBoilerplate.DistributedLock.Base

/-!
# The `async with` block

`src/distributed_lock/lock.py`: one `DistributedLock` over a backend it shares with anybody. The
task that runs the block and the renewer are two threads of control in one event loop, and every
request to the store is two steps, the store serving it and the reply arriving: in between the
lease may run out, others may be served, and the block may end and cancel its renewer. A request
may also fail with `LockBackendUnavailableError`, served or not.

`_stop_renewer` cancels the renewer and waits for it. A cancelled renewer does nothing more: its
`extend` raises at the await it is suspended in, so a reply that has not been taken is dropped,
and a request still on its way is served, if at all, as one of `others`.

A lock is entered again only after it was left, as its docstring asks. How long the retries and
the renewer sleep is left open. `since`, `releasedAt`, `renewals` and `blocks` are for the
properties only: where in the history the lease was granted and the release answered, what the
renewer was told, and what became of every block.
-/

namespace DistributedLock

open Lib

/-- The arguments of `DistributedLock`. -/
structure Config where
  name : Text
  owner : Text
  ttlSeconds : Time := 30
  waitTimeout : Time := 0
  renewInterval : Option Time := none

/-- `LockLostError`, with its details. -/
structure LockLostError where
  lock : Text
  token : ℤ
  outcome : Option ReleaseOutcome
  deriving DecidableEq

/-- What `__aenter__` can raise. -/
inductive EntryError
  | alreadyHeld
  | backendUnavailable
  | unavailable (attempts : ℕ) (waited : Time) (holder : Option LockState)
  deriving DecidableEq

/-- Where the renewer is: asleep, waiting for `extend` (with the store's answer, once served), or
    returned. -/
inductive Renewer
  | sleeping
  | extending (lease : Lease) (reply : Option (Option Lease))
  | finished
  deriving DecidableEq

/-- What came of one renewal. -/
inductive Renewal
  | renewed
  | refused
  | unavailable
  deriving DecidableEq

inductive Ending
  | returned
  | bodyRaised
  | lockLost (error : LockLostError)
  deriving DecidableEq

/-- A block that has ended: the lease's token, where it was granted, where the answer to its
    release stands if one arrived, whether the body raised, and what the renewer was told. -/
structure Block where
  token : ℤ
  since : ℕ
  released : Option ℕ
  failed : Bool
  renewals : List Renewal
  ending : Ending
  deriving DecidableEq

inductive Phase
  | outside
  | entryFailed (error : EntryError)
  | acquiring (deadline : Time) (attempt : ℕ) (reply : Option (Option Lease))
  | inspecting (attempts : ℕ)
  | inside
  | stopping (failed : Bool)
  | releasing (failed : Bool) (lease : Lease) (reply : Option ReleaseOutcome)
  deriving DecidableEq

/-- The lock may be entered. -/
def Phase.out : Phase → Bool
  | .outside => true
  | .entryFailed _ => true
  | _ => false

namespace Lock

structure Sys where
  history : List Exchange := []
  phase : Phase := .outside
  lease : Option Lease := none
  renewer : Option Renewer := none
  lost : Bool := false
  since : ℕ := 0
  releasedAt : ℕ := 0
  renewals : List Renewal := []
  blocks : List Block := []

inductive Action
  | others (x : Exchange)
  | enter (now : Time)
  | acquireServed (x : Exchange)
  | acquireReply (now : Time)
  | acquireFailed
  | inspectReply (x : Exchange)
  | inspectFailed
  | renewerWakes
  | renewalServed (x : Exchange)
  | renewalReply
  | renewalFailed
  | bodyEnds (failed : Bool)
  | renewerStopped
  | releaseServed (x : Exchange)
  | releaseReply
  | releaseFailed

/-- What an action adds to the history. -/
def Action.exchange : Action → Option Exchange
  | .others x => some x
  | .acquireServed x => some x
  | .inspectReply x => some x
  | .renewalServed x => some x
  | .releaseServed x => some x
  | _ => none

variable (cfg : Config)

/-- `__aenter__`, once `_acquire` returned. -/
def Sys.entered (s : Sys) (lease : Lease) : Sys :=
  { s with
    phase := .inside
    lease := some lease
    lost := false
    renewer := cfg.renewInterval.map fun _ => .sleeping
    renewals := [] }

/-- `_acquire`, once the store refused: the next attempt, or the 409 past the deadline. -/
def Sys.contended (s : Sys) (deadline : Time) (attempt : ℕ) (now : Time) : Sys :=
  let attempt := attempt + 1
  if deadline ≤ now then { s with phase := .inspecting attempt }
  else { s with phase := .acquiring deadline attempt none }

/-- How `__aexit__` ends, given what `_release` returned. -/
def verdict (lost failed : Bool) (lease : Lease) (outcome : Option ReleaseOutcome) : Ending :=
  let lost := lost || outcome.any fun o => o ≠ .released
  if !lost then (if failed then .bodyRaised else .returned)
  else if failed then .bodyRaised
  else .lockLost { lock := cfg.name, token := lease.token, outcome }

/-- The rest of `__aexit__`. -/
def Sys.left (s : Sys) (failed : Bool) (lease : Lease) (outcome : Option ReleaseOutcome) : Sys :=
  { s with
    phase := .outside
    blocks := s.blocks ++
      [{ token := lease.token
         since := s.since
         released := outcome.map fun _ => s.releasedAt
         failed
         renewals := s.renewals
         ending := verdict cfg s.lost failed lease outcome }] }

/-- `__aexit__` from where the renewer has stopped: `_lease` is dropped and its release sent.
    Inside a block `_lease` is never `None`, so that there is nothing to release is no step. -/
def Sys.release (s : Sys) (failed : Bool) : Option Sys :=
  s.lease.map fun lease => { s with lease := none, phase := .releasing failed lease none }

/-- The renewer's next turn of its loop. -/
def Sys.renewerTurn (s : Sys) : Sys :=
  match s.lease with
  | none => { s with renewer := some .finished }
  | some lease => { s with renewer := some (.extending lease none) }

/-- The renewer takes the store's answer. -/
def Sys.renewalTaken (s : Sys) : Option Lease → Sys
  | some renewed =>
    { s with
      lease := some renewed
      renewer := some .sleeping
      renewals := s.renewals ++ [.renewed] }
  | none =>
    { s with lost := true, renewer := some .finished, renewals := s.renewals ++ [.refused] }

def Sys.step (s : Sys) : Action → Option Sys
  | .others x => some { s with history := s.history ++ [x] }
  | .enter now =>
    if s.phase.out then
      if s.lease.isSome then some { s with phase := .entryFailed .alreadyHeld }
      else some { s with phase := .acquiring (now + cfg.waitTimeout) 0 none }
    else none
  | .acquireServed x =>
    match s.phase, x.answer with
    | .acquiring deadline attempt none, .acquired reply =>
      if x.call = .acquire cfg.name cfg.owner cfg.ttlSeconds then
        some
          { s with
            history := s.history ++ [x]
            since := s.history.length
            phase := .acquiring deadline attempt (some reply) }
      else none
    | _, _ => none
  | .acquireReply now =>
    match s.phase with
    | .acquiring _ _ (some (some lease)) => some (s.entered cfg lease)
    | .acquiring deadline attempt (some none) => some (s.contended deadline attempt now)
    | _ => none
  | .acquireFailed =>
    match s.phase with
    | .acquiring _ _ _ => some { s with phase := .entryFailed .backendUnavailable }
    | _ => none
  | .inspectReply x =>
    match s.phase, x.answer with
    | .inspecting attempts, .inspected holder =>
      if x.call = .inspect cfg.name then
        some
          { s with
            history := s.history ++ [x]
            phase := .entryFailed (.unavailable attempts cfg.waitTimeout holder) }
      else none
    | _, _ => none
  | .inspectFailed =>
    match s.phase with
    | .inspecting _ => some { s with phase := .entryFailed .backendUnavailable }
    | _ => none
  | .renewerWakes =>
    match s.phase, s.renewer with
    | .inside, some .sleeping => some s.renewerTurn
    | _, _ => none
  | .renewalServed x =>
    match s.phase, s.renewer, x.answer with
    | .inside, some (.extending lease none), .extended reply =>
      if x.call = .extend lease cfg.ttlSeconds then
        some
          { s with
            history := s.history ++ [x]
            renewer := some (.extending lease (some reply)) }
      else none
    | _, _, _ => none
  | .renewalReply =>
    match s.phase, s.renewer with
    | .inside, some (.extending _ (some reply)) => some (s.renewalTaken reply)
    | _, _ => none
  | .renewalFailed =>
    match s.phase, s.renewer with
    | .inside, some (.extending _ _) =>
      some { s with renewer := some .sleeping, renewals := s.renewals ++ [.unavailable] }
    | _, _ => none
  | .bodyEnds failed =>
    match s.phase, s.renewer with
    | .inside, none => s.release failed
    | .inside, some _ => some { s with renewer := none, phase := .stopping failed }
    | _, _ => none
  | .renewerStopped =>
    match s.phase with
    | .stopping failed => s.release failed
    | _ => none
  | .releaseServed x =>
    match s.phase, x.answer with
    | .releasing failed lease none, .released outcome =>
      if x.call = .release lease then
        some
          { s with
            history := s.history ++ [x]
            releasedAt := s.history.length
            phase := .releasing failed lease (some outcome) }
      else none
    | _, _ => none
  | .releaseReply =>
    match s.phase with
    | .releasing failed lease (some outcome) => some (s.left cfg failed lease (some outcome))
    | _ => none
  | .releaseFailed =>
    match s.phase with
    | .releasing failed lease _ => some (s.left cfg failed lease none)
    | _ => none

end Lock

end DistributedLock
