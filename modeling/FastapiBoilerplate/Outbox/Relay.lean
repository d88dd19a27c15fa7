import FastapiBoilerplate.Decorators.Base
import FastapiBoilerplate.Lib.Run
import FastapiBoilerplate.Outbox.Store

/-!
# Producers and relays

`OutboxRelay.drain_once` (`src/outbox/relay.py`) inside the scope of `session_batches`
(`store.py`), next to the requests that publish: any number of transactions of either kind against
one table. A relay takes its steps where it awaits: the claim, the dispatch of one event, the end
of that dispatch, the statement that records it, the commit. Anything can happen in between, and a
transaction can be lost at any point: a cancelled relay, a broken connection and a commit that
fails all leave the scope with an exception, and the scope rolls back.

`history` records what went out and what came back; no step reads it.
-/

namespace Outbox

open Lib Lib.ReadCommitted

structure RelayConfig where
  batchSize : ℕ := 100
  retryBaseDelay : ℚ := 1
  retryMaxDelay : ℚ := 300
  jitter : Bool := true
  /-- `__post_init__`. -/
  batchSize_pos : 1 ≤ batchSize := by decide
  retryBaseDelay_pos : 0 < retryBaseDelay := by decide
  retryBaseDelay_le : retryBaseDelay ≤ retryMaxDelay := by decide

/-- `backoff_delay` with the relay's configuration. -/
def backoffDelay (cfg : RelayConfig) (attempt : ℕ) (draw : ℚ) : ℚ :=
  Decorators.backoffDelay attempt cfg.retryBaseDelay cfg.retryMaxDelay cfg.jitter draw

variable {φ π : Type}

/-! ## One event -/

/-- How the dispatch of an event ended, short of a cancellation. -/
inductive Ending
  /-- The bus has heard of every subscriber. -/
  | returned (handlers : List (Text × HandlerEnd))
  /-- `publish` itself raised. -/
  | raised (exc : Raised)
  /-- `wait_for` has run out of patience. -/
  | timedOut

/-- `_deliver`, once the event is rebuilt. -/
def concluded (event : DomainEvent φ) : Ending → Except Raised Unit
  | .returned handlers => (publishToAll event.eventName handlers).raiseForFailures
  | .raised exc => .error exc
  | .timedOut => .error (.other ⟨lit "TimeoutError", []⟩)

/-- `codec.decode` of a claimed row. -/
def decodeEntry (codec : Codec φ π) (entry : PendingEvent π) :
    Except ExceptionText (DomainEvent φ) :=
  codec.decode entry.eventName entry.payload entry.eventId entry.occurredAt

/-- `_handle`, once the delivery has been tried. -/
def record (cfg : RelayConfig) (now : Instant) (t : ℕ) (draw : ℚ) (i : ℕ)
    (entry : PendingEvent π) (outcome : Except Raised Unit) (db : Table π) :
    Option (Except StatementError (Table π)) :=
  match outcome with
  | .ok () => (complete t i db).map .ok
  | .error raised =>
    fail now t i (describe raised) (backoffDelay cfg (entry.attempts + 1) draw) db

/-! ## The system -/

/-- Where a transaction stands. -/
inductive Phase (φ π : Type)
  /-- a request, staging rows -/
  | producing
  /-- a relay, before its claim -/
  | claiming
  /-- between two events -/
  | handling (todo : List (ℕ × PendingEvent π))
  /-- awaiting the dispatcher -/
  | dispatching (i : ℕ) (entry : PendingEvent π) (event : DomainEvent φ)
      (todo : List (ℕ × PendingEvent π))
  /-- about to write the outcome down -/
  | recording (i : ℕ) (entry : PendingEvent π) (outcome : Except Raised Unit)
      (todo : List (ℕ × PendingEvent π))
  | committed
  | rolledBack

structure Session (φ π : Type) where
  /-- `now()`. -/
  now : Instant
  /-- The rows a relay has claimed. -/
  places : List ℕ := []
  phase : Phase φ π

inductive Happened (π : Type)
  /-- A request has committed, and these are the rows it had staged. -/
  | committed (p : ℕ) (rows : List (OutboxEvent π))
  /-- The event of a row was handed to the dispatcher. -/
  | dispatched (r i : ℕ) (entry : PendingEvent π)
  /-- The dispatcher has returned for it. -/
  | returned (r i : ℕ) (result : PublishResult)

/-- What the end of a dispatch adds to the history. -/
def reported (r i : ℕ) (event : DomainEvent φ) : Ending → List (Happened π)
  | .returned handlers => [.returned r i (publishToAll event.eventName handlers)]
  | _ => []

structure Sys (φ π : Type) where
  db : Table π := {}
  sessions : List (Session φ π) := []
  history : List (Happened π) := []

inductive Action (φ : Type)
  /-- A request opens its transaction. -/
  | request (now : Instant)
  | publish (p : ℕ) (event : DomainEvent φ) (rowId : UUID)
  /-- A relay opens its transaction. -/
  | tick (now : Instant)
  | claim (r : ℕ)
  | dispatch (r : ℕ)
  | conclude (r : ℕ) (ending : Ending)
  | record (r : ℕ) (draw : ℚ)
  | commit (c : ℕ)
  | abort (c : ℕ)

namespace Sys

variable (cfg : RelayConfig) (codec : Codec φ π) (s : Sys φ π)

def goto (db : Table π) (c : ℕ) (session : Session φ π) (phase : Phase φ π)
    (news : List (Happened π)) : Sys φ π :=
  { db, sessions := s.sessions.set c { session with phase }, history := s.history ++ news }

/-- The scope's `except BaseException`. -/
def rollback (c : ℕ) (session : Session φ π) : Sys φ π :=
  s.goto (s.db.rollback c) c session .rolledBack []

/-- The rows a request has staged. -/
def stagedBy (p : ℕ) : List (OutboxEvent π) := (s.db.insertsOf p).filterMap id

def step : Action φ → Option (Sys φ π)
  | .request now => some { s with sessions := s.sessions ++ [{ now, phase := .producing }] }
  | .publish p event rowId =>
    match s.sessions[p]? with
    | some ⟨now, _, .producing⟩ =>
      match publish codec event rowId now with
      | .error _ => some s
      | .ok row =>
        (s.db.insert p (fun row => row.any (·.id == rowId)) (some row)).map fun db => { s with db }
    | _ => none
  | .tick now => some { s with sessions := s.sessions ++ [{ now, phase := .claiming }] }
  | .claim r =>
    match s.sessions[r]? with
    | some ⟨now, _, .claiming⟩ =>
      let (entries, db) := claim cfg.batchSize now r s.db
      some (s.goto db r ⟨now, entries.map (·.1), .claiming⟩ (.handling entries) [])
    | _ => none
  | .dispatch r =>
    match s.sessions[r]? with
    | some ⟨now, places, .handling ((i, entry) :: todo)⟩ =>
      let session : Session φ π := ⟨now, places, .handling ((i, entry) :: todo)⟩
      match decodeEntry codec entry with
      | .error exc => some (s.goto s.db r session (.recording i entry (.error (.other exc)) todo) [])
      | .ok event =>
        some (s.goto s.db r session (.dispatching i entry event todo) [.dispatched r i entry])
    | _ => none
  | .conclude r ending =>
    match s.sessions[r]? with
    | some ⟨now, places, .dispatching i entry event todo⟩ =>
      let session : Session φ π := ⟨now, places, .dispatching i entry event todo⟩
      some (s.goto s.db r session (.recording i entry (concluded event ending) todo)
        (reported r i event ending))
    | _ => none
  | .record r draw =>
    match s.sessions[r]? with
    | some ⟨now, places, .recording i entry outcome todo⟩ =>
      let session : Session φ π := ⟨now, places, .recording i entry outcome todo⟩
      match record cfg now r draw i entry outcome s.db with
      | none => none
      | some (.error _) => some (s.rollback r session)
      | some (.ok db) => some (s.goto db r session (.handling todo) [])
    | _ => none
  | .commit c =>
    match s.sessions[c]? with
    | some ⟨now, places, .producing⟩ =>
      some (s.goto (s.db.commit c) c ⟨now, places, .producing⟩ .committed
        [.committed c (s.stagedBy c)])
    | some ⟨now, places, .handling []⟩ =>
      some (s.goto (s.db.commit c) c ⟨now, places, .handling []⟩ .committed [])
    | _ => none
  | .abort c =>
    match s.sessions[c]? with
    | some ⟨_, _, .committed⟩ => none
    | some ⟨_, _, .rolledBack⟩ => none
    | some session => some (s.rollback c session)
    | none => none

end Sys

/-- For runs by hand: a codec that stores an event as it is, and a row that is due. -/
def verbatim : Codec Unit Unit :=
  ⟨fun event => .ok event.fields, fun name payload id at' => .ok ⟨name, id, at', payload⟩⟩

def due (n : UUID) : OutboxEvent Unit := ⟨n, lit "e", lit "UserRegistered", (), 0, 0, 0, none⟩

end Outbox
