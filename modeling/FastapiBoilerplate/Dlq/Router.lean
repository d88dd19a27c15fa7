import FastapiBoilerplate.Dlq.Envelope

/-!
# Where a failed record goes, and how it is put back

`src/dlq/router.py` and `src/dlq/replay.py`. `route` and `replay` are given what they read (the
record, the exception, the clock) and answer with the record they hand to the publisher and what
they report about it, or with what they raise before they get that far; a publish that fails
makes them raise what it raised. Log lines are left out.
-/

open Lib Kafka

namespace Dlq

def headerSyntheticKey : Text := lit "x-dlq-synthetic-key"

/-- What `route` publishes, and its `RouteOutcome`. -/
structure Routed where
  record : Outgoing
  attempts : ℕ
  delay : ℚ
  deadLettered : Bool
  envelope : DeadLetterEnvelope

structure DeadLetterRouter where
  policy : RetryPolicy := {}
  nonRetryable : List ExcClass := [.messageNotDecodableError]

/-- The key to republish under, and the headers to go with it. -/
def republishKey (message : ConsumedMessage) (envelope : DeadLetterEnvelope) :
    Except Exc (Option Text × Headers) := do
  let headers ← stamp message.headers envelope
  if message.key.isSome ∨ message.value.isSome then return (message.key, headers)
  else
    let partition ← str envelope.originPartition
    let offset ← str envelope.originOffset
    let synthetic := envelope.originTopic ++ lit ":" ++ partition ++ lit ":" ++ offset
    return (some synthetic, headers ++ [(headerSyntheticKey, asciiBytes (lit "1"))])

/-- What `_publish` hands to the publisher. -/
def republish (message : ConsumedMessage) (topic : Text) (envelope : DeadLetterEnvelope) :
    Except Exc Outgoing := do
  let (key, headers) ← republishKey message envelope
  return { topic, key, value := message.value, headers }

/-- `f"{type(exc).__name__}: {exc}"`, of an exception whose `str()` does not raise. -/
def describe (exc : Exc) : Text := exc.cls.name ++ lit ": " ++ exc.text

namespace DeadLetterRouter

section
variable [Unicode]

/-- The topic whose ladder a record is on: its envelope's, or what its own topic's name says. -/
def originOf (router : DeadLetterRouter) (previous : Option DeadLetterEnvelope)
    (message : ConsumedMessage) : Text :=
  match previous with
  | some previous => previous.originTopic
  | none => (router.policy.originOf message.topic).getD message.topic

/-- `_ladder`. -/
def ladder (router : DeadLetterRouter) (previous : Option DeadLetterEnvelope)
    (message : ConsumedMessage) : Except Exc RetryLadder :=
  router.policy.ladderFor (router.originOf previous message)

/-- `ladder_for`: the ladder a record belongs to, by its headers or else by its topic's name. -/
def ladderFor (router : DeadLetterRouter) (message : ConsumedMessage) : Except Exc RetryLadder :=
  match read message with
  | .ok previous => router.ladder previous message
  | .error raised =>
    if raised.isInstance .malformedEnvelopeError then router.ladder none message
    else .error raised

/-- `_dead_letter_unreadable`: the fresh envelope says where the record was, which need not be
    the origin topic. -/
def deadLetterUnreadable (router : DeadLetterRouter) (message : ConsumedMessage) (now : Utc)
    (malformed : Exc) : Except Exc Routed := do
  let ladder ← router.ladder none message
  let envelope ← advance none message now 0 (describe malformed)
  let record ← republish message ladder.deadLetterTopic envelope
  return { record, attempts := envelope.attempts, delay := 0, deadLettered := true, envelope }

/-- The tier of a failure that brings a record to `attempts`, none for the dead-letter topic. -/
def nextTier (router : DeadLetterRouter) (ladder : RetryLadder) (exc : Exc) (attempts : ℕ) :
    Except Exc (Option RetryTier) :=
  let permanent := router.nonRetryable.any exc.isInstance
  if permanent then .ok none else ladder.destination attempts

/-- The rest of `route`, for a record whose headers could be read. -/
def routeReadable (router : DeadLetterRouter) (message : ConsumedMessage) (exc : Exc) (now : Utc)
    (previous : Option DeadLetterEnvelope) (replays : ℤ) : Except Exc Routed := do
  let ladder ← router.ladder previous message
  let attempts := (previous.map (·.attempts)).getD 0 + 1
  let tier ← router.nextTier ladder exc attempts
  let delay := (tier.map (·.delay)).getD 0
  let error ← truncateError (describe exc)
  let envelope ← advance previous message now delay error replays (some ladder.originTopic)
  let destination := (tier.map (·.topic)).getD ladder.deadLetterTopic
  let record ← republish message destination envelope
  return { record, attempts, delay, deadLettered := tier.isNone, envelope }

/-- What `route` reads off a record before it decides anything. -/
def readHeaders (message : ConsumedMessage) : Except Exc (Option DeadLetterEnvelope × ℤ) := do
  let previous ← read message
  let replays ← readReplays message
  return (previous, replays)

/-- `route`, up to the publish. -/
def route (router : DeadLetterRouter) (message : ConsumedMessage) (exc : Exc) (now : Utc) :
    Except Exc Routed :=
  match readHeaders message with
  | .ok (previous, replays) => router.routeReadable message exc now previous replays
  | .error raised =>
    if raised.isInstance .malformedEnvelopeError then
      router.deadLetterUnreadable message now raised
    else .error raised

end

end DeadLetterRouter

/-! ## What is known of a routed record -/

variable {message : ConsumedMessage} {envelope : DeadLetterEnvelope} {key : Option Text}
  {headers : Headers}

theorem republish_eq_ok {topic : Text} {record : Outgoing}
    (h : republish message topic envelope = .ok record) :
    record.topic = topic ∧ record.value = message.value ∧
      republishKey message envelope = .ok (record.key, record.headers) := by
  obtain ⟨⟨key, headers⟩, hkey, h⟩ := bind_eq_ok.mp h
  obtain rfl := pure_eq_ok.mp h
  exact ⟨rfl, rfl, hkey⟩

/-- A record with a key or a value keeps its key, and is stamped. -/
theorem republishKey_kept (hkept : message.key.isSome ∨ message.value.isSome)
    (h : republishKey message envelope = .ok (key, headers)) :
    key = message.key ∧ Stamped message.headers envelope headers := by
  obtain ⟨stamped, hstamp, h⟩ := bind_eq_ok.mp h
  rw [if_pos hkept] at h
  cases h
  exact ⟨rfl, stamp_eq_ok hstamp⟩

/-- A record with neither is given a key, and flagged after the stamp. -/
theorem republishKey_synthetic (hneither : message.key = none ∧ message.value = none)
    (h : republishKey message envelope = .ok (key, headers)) :
    key.isSome ∧ ∃ stamped, Stamped message.headers envelope stamped ∧
      headers = stamped ++ [(headerSyntheticKey, asciiBytes (lit "1"))] := by
  obtain ⟨stamped, hstamp, h⟩ := bind_eq_ok.mp h
  rw [if_neg (by simp [hneither])] at h
  obtain ⟨partition, -, h⟩ := bind_eq_ok.mp h
  obtain ⟨offset, -, h⟩ := bind_eq_ok.mp h
  cases h
  exact ⟨rfl, stamped, stamp_eq_ok hstamp, rfl⟩

namespace DeadLetterRouter

section
variable [Unicode]

/-- Whether a record that fails with `exc` is dead-lettered at once: its headers cannot be read,
    or the exception is permanent, or it has been through every tier. -/
def deadLetters (router : DeadLetterRouter) (message : ConsumedMessage) (exc : Exc) : Bool :=
  match readHeaders message with
  | .error _ => true
  | .ok (previous, _) =>
    router.nonRetryable.any exc.isInstance ||
      router.policy.tiers < (previous.map (·.attempts)).getD 0 + 1

/-- A routed record: republished under an envelope in UTC, on a topic of its ladder; on a tier the
    envelope names the origin the ladder was built from. -/
structure Route (router : DeadLetterRouter) (message : ConsumedMessage) (exc : Exc)
    (routed : Routed) : Prop where
  republished : republish message routed.record.topic routed.envelope = .ok routed.record
  inUtc : routed.envelope.InUtc
  deadLettered : routed.deadLettered = router.deadLetters message exc
  topic : ∃ ladder, router.ladderFor message = .ok ladder ∧
    if routed.deadLettered then routed.record.topic = ladder.deadLetterTopic
    else routed.record.topic ∈ ladder.retryTopics ∧
      routed.envelope.originTopic = ladder.originTopic

variable {message : ConsumedMessage} {previous : Option DeadLetterEnvelope} {replays : ℤ}
  {router : DeadLetterRouter} {now : Utc} {exc malformed : Exc} {routed : Routed}

theorem readHeaders_inUtc (h : readHeaders message = .ok (previous, replays)) :
    ∀ p ∈ previous, p.InUtc := by
  obtain ⟨read, hread, h⟩ := bind_eq_ok.mp h
  obtain ⟨count, -, h⟩ := bind_eq_ok.mp h
  cases h
  intro p hp
  cases hp
  exact (readOff_of_read hread).inUtc

/-- A record whose headers cannot be read is on the ladder its topic's name says. -/
theorem ladderFor_of_unreadable (router : DeadLetterRouter)
    (hread : readHeaders message = .error malformed)
    (hmalformed : malformed.isInstance .malformedEnvelopeError = true) :
    router.ladderFor message = router.ladder none message := by
  unfold ladderFor
  cases bind_eq_error.mp hread with
  | inl hread =>
    rw [hread]
    exact if_pos hmalformed
  | inr hread =>
    -- an envelope that was read has a replay count that was read
    obtain ⟨previous, hprevious, hread⟩ := hread
    cases previous with
    | none => rw [hprevious]
    | some =>
      rw [(readOff_of_read hprevious).replays] at hread
      cases hread

theorem deadLetterUnreadable_eq_ok (hread : readHeaders message = .error malformed)
    (hmalformed : malformed.isInstance .malformedEnvelopeError = true)
    (h : router.deadLetterUnreadable message now malformed = .ok routed) :
    Route router message exc routed := by
  simp only [deadLetterUnreadable, bind_eq_ok] at h
  obtain ⟨ladder, hladder, envelope, henvelope, record, hrecord, ⟨⟩⟩ := h
  obtain ⟨htopic, -, -⟩ := republish_eq_ok hrecord
  constructor
  · rw [htopic]
    exact hrecord
  · exact advance_inUtc (by simp) henvelope
  · simp [deadLetters, hread]
  · exact ⟨ladder, (router.ladderFor_of_unreadable hread hmalformed).trans hladder,
      by simp [htopic]⟩

theorem ladderFor_of_readable (router : DeadLetterRouter)
    (hread : readHeaders message = .ok (previous, replays)) :
    router.ladderFor message = router.ladder previous message := by
  obtain ⟨read, hread, h⟩ := bind_eq_ok.mp hread
  obtain ⟨count, -, h⟩ := bind_eq_ok.mp h
  cases h
  rw [ladderFor, hread]

omit [Unicode] in
theorem nextTier_eq_ok {ladder : RetryLadder} {attempts : ℕ} {tier : Option RetryTier}
    (h : router.nextTier ladder exc (attempts + 1) = .ok tier) :
    (tier.isNone ↔ router.nonRetryable.any exc.isInstance = true ∨
      ladder.tiers.length < attempts + 1) ∧ ∀ t ∈ tier, t ∈ ladder.tiers := by
  unfold nextTier RetryLadder.destination at h
  by_cases hpermanent : router.nonRetryable.any exc.isInstance = true
  · simp only [hpermanent, if_true] at h
    cases h
    simp [hpermanent]
  simp only [hpermanent, Bool.false_eq_true, if_false, Nat.add_sub_cancel] at h
  rw [if_neg (by omega)] at h
  cases h
  refine ⟨?_, fun t ht => List.mem_of_getElem? ht⟩
  simp only [Option.isNone_iff_eq_none, List.getElem?_eq_none_iff, hpermanent,
    Bool.false_eq_true, false_or]
  omega

theorem routeReadable_eq_ok (hread : readHeaders message = .ok (previous, replays))
    (h : router.routeReadable message exc now previous replays = .ok routed) :
    Route router message exc routed := by
  obtain ⟨ladder, hladder, h⟩ := bind_eq_ok.mp h
  obtain ⟨horigin, hdead, hlength, -⟩ := RetryPolicy.ladderFor_eq_ok hladder
  simp only [bind_eq_ok] at h
  obtain ⟨tier, htier, _, -, envelope, henvelope, record, hrecord, ⟨⟩⟩ := h
  obtain ⟨htopic, -, -⟩ := republish_eq_ok hrecord
  obtain ⟨hnone, hmem⟩ := nextTier_eq_ok htier
  constructor
  · rw [htopic]
    exact hrecord
  · exact advance_inUtc (readHeaders_inUtc hread) henvelope
  · rw [hlength] at hnone
    simp only [deadLetters, hread]
    rw [Bool.eq_iff_iff, hnone]
    simp
  · refine ⟨ladder, (router.ladderFor_of_readable hread).trans hladder, ?_⟩
    dsimp only
    rw [htopic]
    cases tier with
    | none => simp
    | some t =>
      refine ⟨List.mem_map_of_mem (hmem t rfl), ?_⟩
      have hadvanced := originTopic_of_advance henvelope
      cases previous with
      | none => exact hadvanced
      | some => exact hadvanced.trans horigin.symm

theorem route_eq_ok (h : router.route message exc now = .ok routed) :
    Route router message exc routed := by
  unfold route at h
  split at h
  · exact routeReadable_eq_ok ‹_› h
  split at h
  · exact deadLetterUnreadable_eq_ok ‹_› ‹_› h
  · cases h

end

end DeadLetterRouter

/-! ## Replay -/

structure DeadLetterReplayer where
  policy : RetryPolicy := {}
  maxReplays : ℕ := 3

/-- What `replay` publishes, and its `ReplayOutcome`. -/
structure Replayed where
  record : Outgoing
  replays : ℕ
  envelope : DeadLetterEnvelope

def replayNotPossibleError (text : Text) (message : ConsumedMessage)
    (more : List (Text × Detail) := []) : Exc :=
  ExcClass.replayNotPossibleError.error text (placeOf message ++ more)

/-- The one header of the package a replayed record keeps. -/
def replayHeaders (envelope : DeadLetterEnvelope) : Except Exc Headers := do
  let replays ← str envelope.replays
  return [(headerReplays, asciiBytes replays)]

/-- The checks and the publish of `replay`, for an envelope that was read. -/
def DeadLetterReplayer.replayEnvelope [Unicode] (replayer : DeadLetterReplayer)
    (message : ConsumedMessage) (envelope : DeadLetterEnvelope) : Except Exc Replayed :=
  if (message.header headerSyntheticKey).isSome then
    .error (replayNotPossibleError (lit
      "The record arrived with neither a key nor a value and was given a synthetic key. Replaying it would place it on a partition it never came from.")
      message)
  else if replayer.policy.isLadderTopic envelope.originTopic then
    .error (replayNotPossibleError
      (lit "The record's origin topic " ++ reprText envelope.originTopic ++ lit
        " is itself a retry or dead-letter topic, which is not somewhere a record can be replayed to.")
      message)
  else if replayer.maxReplays ≤ envelope.replays then do
    let replays ← str envelope.replays
    let limit ← str replayer.maxReplays
    .error (replayNotPossibleError
      (lit "The record has already been replayed " ++ replays ++ lit " times (limit " ++ limit ++
        lit "). Whatever is failing is not transient; fix it before putting the record back again.")
      message [(lit "origin_topic", .text envelope.originTopic)])
  else do
    let restored := { envelope with replays := envelope.replays + 1 }
    let own ← replayHeaders restored
    return {
      record := {
        topic := envelope.originTopic, key := message.key, value := message.value,
        headers := strip message.headers ++ own },
      replays := restored.replays, envelope := restored }

/-- `replay`, up to the publish. -/
def DeadLetterReplayer.replay [Unicode] (replayer : DeadLetterReplayer)
    (message : ConsumedMessage) : Except Exc Replayed :=
  match read message with
  | .error raised =>
    if raised.isInstance .malformedEnvelopeError then
      .error (replayNotPossibleError (lit
        "The record's dead-letter envelope cannot be read, so there is no origin topic to replay it to.")
        message)
    else .error raised
  | .ok none =>
    .error (replayNotPossibleError (lit
      "The record carries no dead-letter envelope, so nothing records which topic it was consumed from.")
      message)
  | .ok (some envelope) => replayer.replayEnvelope message envelope

end Dlq
