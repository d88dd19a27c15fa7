import Mathlib.Data.Rat.Floor
import FastapiBoilerplate.Dlq.Ladder
import FastapiBoilerplate.Lib.CalendarRoundTrip

/-!
# The envelope a record carries between tiers

`src/dlq/envelope.py`. What travels is text in headers, so everything is here that can go wrong
on the way in and out: bytes that are not UTF-8, counts that are no integers or too long to
write, timestamps without an offset or whose instant is outside the years of `datetime`, texts
that cannot be encoded.

A `DeadLetterEnvelope` is one its `__post_init__` lets through (`make`): the counts are naturals
and `attempts` starts at one. The clock of a router answers in UTC; the timestamps of an envelope
are aware and need not be.
-/

open Lib Kafka

namespace Dlq

def headerPrefix : Text := lit "x-dlq-"

def headerOriginTopic : Text := lit "x-dlq-origin-topic"
def headerOriginPartition : Text := lit "x-dlq-origin-partition"
def headerOriginOffset : Text := lit "x-dlq-origin-offset"
def headerAttempts : Text := lit "x-dlq-attempts"
def headerFirstFailedAt : Text := lit "x-dlq-first-failed-at"
def headerNotBefore : Text := lit "x-dlq-not-before"
def headerError : Text := lit "x-dlq-error"
def headerReplays : Text := lit "x-dlq-replays"

def maxErrorLength : ℕ := 512

def truncationMarker : Text := lit "…[truncated]"

def malformedEnvelopeError (text : Text) (details : List (Text × Detail)) : Exc :=
  ExcClass.malformedEnvelopeError.error text details

/-- The place of a record, as errors report it. -/
def placeOf (message : ConsumedMessage) : List (Text × Detail) :=
  [(lit "topic", .text message.topic), (lit "offset", .number message.offset)]

/-! ## Decoding -/

section
variable [Unicode]

/-- `_decode`. -/
def decode (name : Text) (raw : Bytes) : Except Exc Text :=
  match utf8Decode raw with
  | some text => .ok text
  | none => .error (malformedEnvelopeError
      (lit "Header " ++ reprText name ++ lit " is not valid UTF-8.") [(lit "header", .text name)])

/-- `_decode_int`. -/
def decodeInt (name : Text) (raw : Bytes) : Except Exc ℤ := do
  let text ← decode name raw
  match readInt text with
  | some n => return n
  | none => .error (malformedEnvelopeError
      (lit "Header " ++ reprText name ++ lit " is not an integer: " ++ reprText text ++ lit ".")
      [(lit "header", .text name)])

/-- `_decode_time`. A text that was decoded is scanned as the bytes it came from. -/
def decodeTime (name : Text) (raw : Bytes) : Except Exc Utc := do
  let text ← decode name raw
  match fromisoformat raw with
  | none => .error (malformedEnvelopeError
      (lit "Header " ++ reprText name ++ lit " is not an ISO-8601 timestamp: " ++ reprText text ++
        lit ".") [(lit "header", .text name)])
  | some (.naive _) => .error (malformedEnvelopeError
      (lit "Header " ++ reprText name ++ lit " has no UTC offset: " ++ reprText text ++ lit ".")
      [(lit "header", .text name)])
  | some (.aware t) =>
    match t.toUtc with
    | some utc => return utc
    | none => .error (ExcClass.overflowError.error (lit "date value out of range"))

end

/-- `truncate_error`. -/
def truncateError (text : Text) (limit : ℕ := maxErrorLength) : Except Exc Text :=
  if limit < 1 then .error (ExcClass.valueError.error (lit "limit must be at least 1."))
  else if text.length ≤ limit then .ok text
  else if limit ≤ truncationMarker.length then .ok (text.take limit)
  else .ok (text.take (limit - truncationMarker.length) ++ truncationMarker)

/-! ## The envelope -/

@[ext] structure DeadLetterEnvelope where
  originTopic : Text
  originPartition : ℕ
  originOffset : ℕ
  attempts : ℕ
  one_le_attempts : 1 ≤ attempts
  firstFailedAt : Aware
  notBefore : Aware
  error : Text
  replays : ℕ

instance : DecidableEq DeadLetterEnvelope := fun _ _ => decidable_of_iff _ DeadLetterEnvelope.ext_iff.symm

namespace DeadLetterEnvelope

/-- The constructor with its `__post_init__`. -/
def make (originTopic : Text) (originPartition originOffset attempts : ℤ)
    (firstFailedAt notBefore : Aware) (error : Text) (replays : ℤ) :
    Except Exc DeadLetterEnvelope :=
  if h : attempts < 1 then
    .error (ExcClass.valueError.error
      (lit "attempts is 1-based and counts the failure just seen."))
  else if originPartition < 0 then
    .error (ExcClass.valueError.error (lit "origin_partition cannot be negative."))
  else if originOffset < 0 then
    .error (ExcClass.valueError.error (lit "origin_offset cannot be negative."))
  else if replays < 0 then
    .error (ExcClass.valueError.error (lit "replays cannot be negative."))
  else
    .ok { originTopic, originPartition := originPartition.toNat,
          originOffset := originOffset.toNat, attempts := attempts.toNat,
          one_le_attempts := by omega, firstFailedAt, notBefore, error,
          replays := replays.toNat }

/-- Seconds until the record is due. -/
def waitFor (envelope : DeadLetterEnvelope) (now : Utc) : ℚ :=
  max 0 ((envelope.notBefore.micros - now.val : ℤ) / 1000000)

/-- `to_headers`. -/
def toHeaders (envelope : DeadLetterEnvelope) : Except Exc Headers := do
  let originTopic ← encode envelope.originTopic
  let originPartition ← str envelope.originPartition
  let originOffset ← str envelope.originOffset
  let attempts ← str envelope.attempts
  let error ← truncateError envelope.error
  let error ← encode error
  let replays ← str envelope.replays
  return [
    (headerOriginTopic, originTopic),
    (headerOriginPartition, asciiBytes originPartition),
    (headerOriginOffset, asciiBytes originOffset),
    (headerAttempts, asciiBytes attempts),
    (headerFirstFailedAt, asciiBytes (isoformat envelope.firstFailedAt)),
    (headerNotBefore, asciiBytes (isoformat envelope.notBefore)),
    (headerError, error),
    (headerReplays, asciiBytes replays)]

end DeadLetterEnvelope

/-- Everything but this package's own headers. -/
def strip (headers : Headers) : Headers :=
  headers.filter fun header => !startsWith header.1 headerPrefix

/-- `headers` with the envelope replaced. -/
def stamp (headers : Headers) (envelope : DeadLetterEnvelope) : Except Exc Headers := do
  let own ← envelope.toHeaders
  return strip headers ++ own

/-! ## Reading -/

section
variable [Unicode]

/-- How many times a record has been replayed, envelope or not. -/
def readReplays (message : ConsumedMessage) : Except Exc ℤ :=
  match message.header headerReplays with
  | none => .ok 0
  | some raw => decodeInt headerReplays raw

/-- The error on a record, empty if there is none. -/
def readError (message : ConsumedMessage) : Except Exc Text :=
  match message.header headerError with
  | none => .ok []
  | some raw => decode headerError raw

/-- The body of `read`'s `try`. -/
def readFields (message : ConsumedMessage) (attempts : ℤ)
    (rawOriginTopic rawOriginPartition rawOriginOffset rawFirstFailed rawNotBefore : Bytes) :
    Except Exc DeadLetterEnvelope := do
  let originTopic ← decode headerOriginTopic rawOriginTopic
  let originPartition ← decodeInt headerOriginPartition rawOriginPartition
  let originOffset ← decodeInt headerOriginOffset rawOriginOffset
  let firstFailedAt ← decodeTime headerFirstFailedAt rawFirstFailed
  let notBefore ← decodeTime headerNotBefore rawNotBefore
  let error ← readError message
  let replays ← readReplays message
  DeadLetterEnvelope.make originTopic originPartition originOffset attempts
    firstFailedAt.aware notBefore.aware error replays

/-- The envelope on a record, none if it has never failed. -/
def read (message : ConsumedMessage) : Except Exc (Option DeadLetterEnvelope) :=
  match message.header headerAttempts with
  | none => .ok none
  | some rawAttempts => do
    let attempts ← decodeInt headerAttempts rawAttempts
    match message.header headerFirstFailedAt, message.header headerNotBefore,
        message.header headerOriginTopic, message.header headerOriginPartition,
        message.header headerOriginOffset with
    | some firstFailed, some notBefore, some topic, some partition, some offset =>
      match readFields message attempts topic partition offset firstFailed notBefore with
      | .ok envelope => return some envelope
      | .error exc =>
        if exc.isInstance .valueError then
          .error (malformedEnvelopeError
            (lit "Record's dead-letter envelope is not valid: " ++ exc.text) (placeOf message))
        else .error exc
    | _, _, _, _, _ => .error (malformedEnvelopeError
        (lit "Record carries x-dlq-attempts without the rest of the envelope.")
        (placeOf message))

end

/-! ## The next hop's envelope -/

/-- The nearest integer, the even one of two. -/
def roundHalfEven (x : ℚ) : ℤ :=
  let below := ⌊x⌋
  let rest := x - below
  if rest < 1 / 2 then below
  else if 1 / 2 < rest then below + 1
  else if below % 2 = 0 then below else below + 1

/-- `timedelta(seconds=delay)`, in microseconds. -/
def timedelta (delay : ℚ) : Except Exc ℤ :=
  let micros := roundHalfEven (delay * 1000000)
  let days := micros / microsPerDay
  if days.natAbs ≤ 999999999 then .ok micros
  else if days.natAbs < 2 ^ 31 then do
    let days ← str days
    .error (ExcClass.overflowError.error
      (lit "days=" ++ days ++ lit "; must have magnitude <= 999999999"))
  else .error (ExcClass.overflowError.error (lit "Python int too large to convert to C int"))

/-- `_due_at`: exactly `now` when there is no wait. -/
def dueAt (now : Utc) (delay : ℚ) : Except Exc Aware :=
  if delay ≤ 0 then .ok now.aware
  else do
    let micros ← timedelta delay
    match utcOf (now.val + micros) with
    | some due => return due.aware
    | none => .error (ExcClass.overflowError.error (lit "date value out of range"))

theorem newYear_lt : 63082281600000000 < maxOrdinal * microsPerDay := by decide

/-- The envelope for the next hop, given the one that arrived. -/
def advance (previous : Option DeadLetterEnvelope) (message : ConsumedMessage) (now : Utc)
    (delay : ℚ) (error : Text) (replays : ℤ := 0) (originTopic : Option Text := none) :
    Except Exc DeadLetterEnvelope := do
  match previous with
  | none =>
    let due ← dueAt now delay
    DeadLetterEnvelope.make (originTopic.getD message.topic) message.partition.number
      message.offset 1 now.aware due error replays
  | some previous =>
    let due ← dueAt now delay
    return { previous with
      attempts := previous.attempts + 1, one_le_attempts := Nat.le_add_left 1 _,
      notBefore := due, error }

/-! ## What stamping does to headers -/

theorem strip_append (a b : Headers) : strip (a ++ b) = strip a ++ strip b := List.filter_append ..

theorem strip_strip (headers : Headers) : strip (strip headers) = strip headers := by
  simp [strip, List.filter_filter]

theorem lookup_strip {name : Text} (h : startsWith name headerPrefix = true) (headers : Headers) :
    (strip headers).lookup name = none := by
  refine List.lookup_eq_none_iff.mpr fun header hmem => bne_iff_ne.mpr ?_
  rintro rfl
  simpa [h] using (List.mem_filter.mp hmem).2

variable {envelope : DeadLetterEnvelope} {error originTopic : Text} {replays originPartition : ℤ}
  {now : Utc} {delay : ℚ} {previous : Option DeadLetterEnvelope} {message : ConsumedMessage}

theorem toHeaders_eq_ok {headers : Headers} (h : envelope.toHeaders = .ok headers) :
    ∃ originTopic originPartition originOffset attempts error replays, headers = [
      (headerOriginTopic, originTopic), (headerOriginPartition, originPartition),
      (headerOriginOffset, originOffset), (headerAttempts, attempts),
      (headerFirstFailedAt, asciiBytes (isoformat envelope.firstFailedAt)),
      (headerNotBefore, asciiBytes (isoformat envelope.notBefore)),
      (headerError, error), (headerReplays, replays)] := by
  simp only [DeadLetterEnvelope.toHeaders, bind_eq_ok] at h
  obtain ⟨_, -, _, -, _, -, _, -, _, -, _, -, _, -, h⟩ := h
  exact ⟨_, _, _, _, _, _, (pure_eq_ok.mp h).symm⟩

/-- The names an envelope is written under. -/
def ownHeaders : List Text :=
  [headerOriginTopic, headerOriginPartition, headerOriginOffset, headerAttempts,
    headerFirstFailedAt, headerNotBefore, headerError, headerReplays]

/-- A list stamped with an envelope: the caller's headers are those there were, the package's
    are the envelope's. -/
structure Stamped (headers : Headers) (envelope : DeadLetterEnvelope) (out : Headers) : Prop where
  strip_eq : strip out = strip headers
  firstFailedAt : out.lookup headerFirstFailedAt =
    some (asciiBytes (isoformat envelope.firstFailedAt))
  notBefore : out.lookup headerNotBefore = some (asciiBytes (isoformat envelope.notBefore))
  lookup_other : ∀ name, startsWith name headerPrefix = true → name ∉ ownHeaders →
    out.lookup name = none

theorem stamp_eq_ok {headers out : Headers} (h : stamp headers envelope = .ok out) :
    Stamped headers envelope out := by
  obtain ⟨own, hown, h⟩ := bind_eq_ok.mp h
  obtain rfl := pure_eq_ok.mp h
  obtain ⟨_, _, _, _, _, _, rfl⟩ := toHeaders_eq_ok hown
  constructor
  case strip_eq =>
    rw [strip_append, strip_strip]
    simp [strip]
    decide
  case firstFailedAt =>
    rw [List.lookup_append, lookup_strip (by decide)]
    rfl
  case notBefore =>
    rw [List.lookup_append, lookup_strip (by decide)]
    rfl
  case lookup_other =>
    intro name hprefix hown
    rw [List.lookup_append, lookup_strip hprefix]
    simp only [ownHeaders, List.mem_cons, List.not_mem_nil, or_false, not_or] at hown
    simp [List.lookup_cons, hown, beq_eq_false_iff_ne.mpr]

/-! ## What reading can raise -/

/-- The instants of an envelope are in UTC. -/
def DeadLetterEnvelope.InUtc (envelope : DeadLetterEnvelope) : Prop :=
  (∃ t : Utc, envelope.firstFailedAt = t.aware) ∧ ∃ t : Utc, envelope.notBefore = t.aware

theorem make_eq_ok {originOffset attempts : ℤ}
    {firstFailedAt notBefore : Aware}
    (h : DeadLetterEnvelope.make originTopic originPartition originOffset attempts firstFailedAt
      notBefore error replays = .ok envelope) :
    envelope.originTopic = originTopic ∧ envelope.firstFailedAt = firstFailedAt ∧
      envelope.notBefore = notBefore ∧ (envelope.originPartition : ℤ) = originPartition ∧
      (envelope.originOffset : ℤ) = originOffset ∧ (envelope.replays : ℤ) = replays := by
  unfold DeadLetterEnvelope.make at h
  repeat' split at h
  all_goals cases h
  exact ⟨rfl, rfl, rfl, Int.toNat_of_nonneg (by omega), Int.toNat_of_nonneg (by omega),
    Int.toNat_of_nonneg (by omega)⟩

theorem dueAt_eq_ok {due : Aware} (h : dueAt now delay = .ok due) : ∃ t : Utc, due = t.aware := by
  unfold dueAt at h
  split at h
  · cases h
    exact ⟨now, rfl⟩
  · obtain ⟨micros, -, h⟩ := bind_eq_ok.mp h
    split at h
    · exact ⟨_, (pure_eq_ok.mp h).symm⟩
    · cases h

theorem advance_inUtc {originTopic : Option Text} (hprevious : ∀ p ∈ previous, p.InUtc)
    (h : advance previous message now delay error replays originTopic = .ok envelope) :
    envelope.InUtc := by
  cases previous with
  | none =>
    obtain ⟨due, hdue, h⟩ := bind_eq_ok.mp h
    obtain ⟨-, hfirst, hnot, -⟩ := make_eq_ok h
    obtain ⟨t, rfl⟩ := dueAt_eq_ok hdue
    exact ⟨⟨now, hfirst⟩, ⟨t, hnot⟩⟩
  | some previous =>
    obtain ⟨due, hdue, h⟩ := bind_eq_ok.mp h
    obtain rfl := pure_eq_ok.mp h
    obtain ⟨t, rfl⟩ := dueAt_eq_ok hdue
    exact ⟨(hprevious previous rfl).1, ⟨t, rfl⟩⟩

theorem originTopic_of_advance {origin : Text}
    (h : advance previous message now delay error replays (some origin) = .ok envelope) :
    envelope.originTopic = (previous.map (·.originTopic)).getD origin := by
  cases previous with
  | none =>
    obtain ⟨due, -, h⟩ := bind_eq_ok.mp h
    exact (make_eq_ok h).1
  | some =>
    obtain ⟨due, -, h⟩ := bind_eq_ok.mp h
    obtain rfl := pure_eq_ok.mp h
    rfl

section
variable [Unicode]

variable {name : Text} {raw : Bytes} {exc : Exc} {attempts : ℤ} {message : ConsumedMessage}
  {envelope : DeadLetterEnvelope}

theorem decode_error (h : decode name raw = .error exc) :
    exc.isInstance .malformedEnvelopeError = true := by
  unfold decode at h
  split at h <;> cases h
  exact ExcClass.isInstance_error _ _ _

theorem decodeInt_error (h : decodeInt name raw = .error exc) :
    exc.isInstance .malformedEnvelopeError = true := by
  cases bind_eq_error.mp h with
  | inl h => exact decode_error h
  | inr h =>
    obtain ⟨text, -, h⟩ := h
    split at h <;> cases h
    exact ExcClass.isInstance_error _ _ _

theorem decodeTime_aware {t : Aware} {utc : Utc} (name : Text)
    (hraw : fromisoformat raw = some (.aware t)) (hutc : t.toUtc = some utc) :
    decodeTime name raw = (do let _ ← decode name raw; return utc) := by
  unfold decodeTime
  rw [hraw]
  dsimp only
  rw [hutc]

theorem decodeTime_isoformat_error {t : Utc}
    (h : decodeTime name (asciiBytes (isoformat t.aware)) = .error exc) :
    exc.isInstance .malformedEnvelopeError = true := by
  rw [decodeTime_aware name (fromisoformat_isoformat t.aware) (toUtc_aware t)] at h
  cases bind_eq_error.mp h with
  | inl h => exact decode_error h
  | inr h =>
    obtain ⟨text, -, h⟩ := h
    cases h

omit [Unicode] in
theorem make_error {error : Text} {originOffset replays : ℤ}
    {firstFailedAt notBefore : Aware}
    (h : DeadLetterEnvelope.make originTopic originPartition originOffset attempts firstFailedAt
      notBefore error replays = .error exc) : exc.isInstance .valueError = true := by
  unfold DeadLetterEnvelope.make at h
  split at h
  · cases h; rfl
  split at h
  · cases h; rfl
  split at h
  · cases h; rfl
  split at h
  · cases h; rfl
  · cases h

theorem readError_error (h : readError message = .error exc) :
    exc.isInstance .malformedEnvelopeError = true := by
  unfold readError at h
  split at h
  · cases h
  · exact decode_error h

theorem readReplays_error (h : readReplays message = .error exc) :
    exc.isInstance .malformedEnvelopeError = true := by
  unfold readReplays at h
  split at h
  · cases h
  · exact decodeInt_error h

/-- Timestamps that a router wrote are no reason for anything but `MalformedEnvelopeError`, which
    the rest of the envelope can be. -/
theorem readFields_error {topic partition offset : Bytes} {firstFailed notBefore : Utc}
    (h : readFields message attempts topic partition offset
      (asciiBytes (isoformat firstFailed.aware)) (asciiBytes (isoformat notBefore.aware)) =
      .error exc) :
    exc.isInstance .malformedEnvelopeError = true ∨ exc.isInstance .valueError = true := by
  simp only [readFields, bind_eq_error] at h
  rcases h with h | ⟨_, -, h | ⟨_, -, h | ⟨_, -, h | ⟨_, -, h | ⟨_, -, h | ⟨_, -, h |
    ⟨_, -, h⟩⟩⟩⟩⟩⟩⟩
  · exact .inl (decode_error h)
  · exact .inl (decodeInt_error h)
  · exact .inl (decodeInt_error h)
  · exact .inl (decodeTime_isoformat_error h)
  · exact .inl (decodeTime_isoformat_error h)
  · exact .inl (readError_error h)
  · exact .inl (readReplays_error h)
  · exact .inr (make_error h)

/-- What the fields of an envelope were read from. -/
structure ReadOff (message : ConsumedMessage) (envelope : DeadLetterEnvelope) : Prop where
  originTopic : ∃ raw, decode headerOriginTopic raw = .ok envelope.originTopic
  originPartition : ∃ raw, decodeInt headerOriginPartition raw = .ok envelope.originPartition
  originOffset : ∃ raw, decodeInt headerOriginOffset raw = .ok envelope.originOffset
  inUtc : envelope.InUtc
  replays : readReplays message = .ok envelope.replays

theorem readOff_of_read (h : read message = .ok (some envelope)) : ReadOff message envelope := by
  unfold read at h
  split at h
  · cases h
  obtain ⟨attempts, -, h⟩ := bind_eq_ok.mp h
  split at h
  · split at h
    · rename_i hfields
      cases pure_eq_ok.mp h
      simp only [readFields, bind_eq_ok] at hfields
      obtain ⟨_, htopic, _, hpartition, _, hoffset, firstFailedAt, -, due, -, _, -, _, hreplays,
        hfields⟩ := hfields
      obtain ⟨rfl, hfirst, hnot, rfl, rfl, rfl⟩ := make_eq_ok hfields
      exact ⟨⟨_, htopic⟩, ⟨_, hpartition⟩, ⟨_, hoffset⟩, ⟨⟨firstFailedAt, hfirst⟩, ⟨due, hnot⟩⟩,
        hreplays⟩
    · split at h <;> cases h
  · cases h

theorem read_error_of_utc {firstFailed notBefore : Utc}
    (hfirst : message.header headerFirstFailedAt = some (asciiBytes (isoformat firstFailed.aware)))
    (hnot : message.header headerNotBefore = some (asciiBytes (isoformat notBefore.aware)))
    (h : read message = .error exc) : exc.isInstance .malformedEnvelopeError = true := by
  unfold read at h
  split at h
  · cases h
  cases bind_eq_error.mp h with
  | inl h => exact decodeInt_error h
  | inr h =>
    obtain ⟨attempts, -, h⟩ := h
    rw [hfirst, hnot] at h
    split at h
    · rename_i hff hnb _ _ _
      cases hff
      cases hnb
      split at h
      · cases h
      rename_i hfields
      split at h
      · cases h
        exact ExcClass.isInstance_error _ _ _
      · rename_i hvalue
        cases h
        exact (readFields_error hfields).resolve_right hvalue
    · cases h
      exact ExcClass.isInstance_error _ _ _

end

end Dlq
