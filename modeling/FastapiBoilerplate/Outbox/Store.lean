import Mathlib.Data.List.Sort
import Mathlib.Data.Rat.Defs
import Mathlib.Algebra.Order.Ring.Unbundled.Rat
import FastapiBoilerplate.Lib.ReadCommitted
import FastapiBoilerplate.Lib.Uuid
import FastapiBoilerplate.Outbox.Dispatch

/-!
# The outbox table

`src/models/outbox.py` and the statements that touch it: the row that `OutboxPublisher` stages
(`publisher.py`), and `claim`, `complete` and `fail` of `SqlAlchemyOutboxBatch` (`store.py`). The
table is `Lib.ReadCommitted`'s, over rows that may have been deleted: a deleted row leaves an empty
place behind. A row's place stands for its primary key.

Two things Postgres will not store are visible here, because `fail` writes text and counts: a
string with U+0000 or a surrogate in it, and a counter past 32 bits.

Times are rational seconds; `now()` is the moment the transaction began.
-/

namespace Outbox

open Lib Lib.ReadCommitted List

abbrev Instant := ℚ

/-! ## Events and rows -/

/-- A `DomainEvent`: the name of its class, its identity, and the fields of its own. -/
structure DomainEvent (φ : Type) where
  eventName : Text
  eventId : Text
  occurredAt : Instant
  fields : φ

/-- `OutboxCodec`, which both ends are handed. -/
structure Codec (φ π : Type) where
  encode : DomainEvent φ → Except ExceptionText π
  decode : Text → π → Text → Instant → Except ExceptionText (DomainEvent φ)

/-- A row of `outbox_events`. -/
structure OutboxEvent (π : Type) where
  id : UUID
  eventId : Text
  eventName : Text
  payload : π
  occurredAt : Instant
  availableAt : Instant
  attempts : ℕ := 0
  lastError : Option Text := none
  deriving DecidableEq

structure PendingEvent (π : Type) where
  id : UUID
  eventId : Text
  eventName : Text
  payload : π
  occurredAt : Instant
  attempts : ℕ

variable {φ π : Type} {now : Instant}

/-- `_as_pending`. -/
def asPending (row : OutboxEvent π) : PendingEvent π :=
  { id := row.id, eventId := row.eventId, eventName := row.eventName, payload := row.payload
    occurredAt := row.occurredAt, attempts := row.attempts }

/-- The columns that no statement writes after the `INSERT`. -/
structure Identity (π : Type) where
  id : UUID
  eventId : Text
  eventName : Text
  payload : π
  occurredAt : Instant

def OutboxEvent.identity (row : OutboxEvent π) : Identity π :=
  ⟨row.id, row.eventId, row.eventName, row.payload, row.occurredAt⟩

def PendingEvent.identity (entry : PendingEvent π) : Identity π :=
  ⟨entry.id, entry.eventId, entry.eventName, entry.payload, entry.occurredAt⟩

abbrev Table (π : Type) := Db (Option (OutboxEvent π))

/-! ## Staging -/

def eventIdMaxLength : ℕ := 64

def eventNameMaxLength : ℕ := 255

/-- `_check_fits`. -/
def checkFits (fieldName : String) (value : Text) (limit : ℕ) : Except ExceptionText Unit :=
  if limit < value.length then
    .error ⟨lit "EventNotSerializableError",
      lit fieldName ++ lit " is " ++ decimal value.length ++
        lit " characters; the outbox column holds " ++ decimal limit ++ lit "."⟩
  else .ok ()

/-- `OutboxPublisher.publish`: the row it adds to the session. -/
def publish (codec : Codec φ π) (event : DomainEvent φ) (rowId : UUID) (now : Instant) :
    Except ExceptionText (OutboxEvent π) := do
  checkFits "event_id" event.eventId eventIdMaxLength
  checkFits "event_name" event.eventName eventNameMaxLength
  let payload ← codec.encode event
  return { id := rowId, eventId := event.eventId, eventName := event.eventName, payload
           occurredAt := event.occurredAt, availableAt := now }

/-! ## Claiming -/

/-- `ORDER BY available_at, id`. -/
def comesFirst (a b : ℕ × OutboxEvent π) : Prop :=
  a.2.availableAt < b.2.availableAt ∨
    (a.2.availableAt = b.2.availableAt ∧ a.2.id.toNat ≤ b.2.id.toNat)

instance (a b : ℕ × OutboxEvent π) : Decidable (comesFirst a b) :=
  inferInstanceAs (Decidable (_ ∨ _))

/-- `WHERE available_at <= now()`, of the rows nobody holds. -/
def ready (now : Instant) (db : Table π) : List (ℕ × OutboxEvent π) :=
  db.unlocked.filterMap fun (i, found) =>
    found.bind fun row => if row.availableAt ≤ now then some (i, row) else none

/-- The rows a claim takes. -/
def batch (limit : ℕ) (now : Instant) (db : Table π) : List (ℕ × OutboxEvent π) :=
  ((ready now db).insertionSort comesFirst).take limit

/-- `claim`. -/
def claim (limit : ℕ) (now : Instant) (t : ℕ) (db : Table π) :
    List (ℕ × PendingEvent π) × Table π :=
  let rows := batch limit now db
  (rows.map fun (i, row) => (i, asPending row), db.lock t (rows.map (·.1)))

/-! ## The outcome -/

/-- What makes Postgres refuse a statement, and with it the rest of the transaction. -/
inductive StatementError
  | invalidText
  | integerOutOfRange
  deriving DecidableEq

/-- A character that Postgres can store: neither U+0000 nor half of a pair. -/
def storablePoint (c : CodePoint) : Bool := c.val != 0 && !(0xD800 ≤ c.val && c.val < 0xE000)

/-- The largest `integer`. -/
def maxInteger : ℕ := 2147483647

def lastErrorMaxLength : ℕ := 1000

/-- `complete`; `none` while another transaction holds the row. -/
def complete (t i : ℕ) (db : Table π) : Option (Table π) := db.update t i fun _ => none

/-- The row that `fail` leaves. -/
def reschedule (now : Instant) (error : Text) (retryIn : ℚ) (row : OutboxEvent π) :
    OutboxEvent π :=
  { row with attempts := row.attempts + 1, lastError := some (error.take lastErrorMaxLength)
             availableAt := now + retryIn }

/-- `fail`; `none` while another transaction holds the row. -/
def fail (now : Instant) (t i : ℕ) (error : Text) (retryIn : ℚ) (db : Table π) :
    Option (Except StatementError (Table π)) :=
  if (error.take lastErrorMaxLength).all storablePoint then
    match db.slots[i]?.bind (Slot.current t) with
    | none => none
    | some none => some (.ok db)
    | some (some row) =>
      if maxInteger < row.attempts + 1 then some (.error .integerOutOfRange)
      else (db.update t i (Option.map (reschedule now error retryIn))).map .ok
  else some (.error .invalidText)

/-! ## What is claimed -/

variable {db : Table π} {row : OutboxEvent π} {limit i : ℕ}

theorem mem_ready :
    (i, row) ∈ ready now db ↔ db.slots[i]? = some ⟨some row, none⟩ ∧ row.availableAt ≤ now := by
  rw [ready, mem_filterMap]
  constructor
  · rintro ⟨⟨j, found⟩, hmem, hfound⟩
    obtain ⟨row', rfl, hready⟩ := Option.bind_eq_some_iff.mp hfound
    by_cases hle : row'.availableAt ≤ now
    · rw [if_pos hle] at hready
      cases hready
      exact ⟨Db.mem_unlocked.mp hmem, hle⟩
    · rw [if_neg hle] at hready
      cases hready
  · rintro ⟨hslot, hle⟩
    exact ⟨(i, some row), Db.mem_unlocked.mpr hslot, by simp [hle]⟩

theorem mem_batch (h : (i, row) ∈ batch limit now db) : db.slots[i]? = some ⟨some row, none⟩ := by
  have hsorted := mem_of_mem_take h
  rw [mem_insertionSort] at hsorted
  exact (mem_ready.mp hsorted).1

end Outbox
