import FastapiBoilerplate.Dlq.Walk
import FastapiBoilerplate.Lib.Run

/-!
# Laps

A dead letter that is replayed goes back to its origin topic with one header of the package on it,
the count of its replays, and its next failure takes the count up into an envelope again. So the
count changes hands between two forms, any number of times, and has to come through.

The system is one record, failing and being replayed in any order; each step consumes what the
step before published. It keeps its count, and what is put back is what was published first, if
the record had a key or a value and was published to a topic that is no rung of a ladder.
-/

open Lib Kafka

namespace Dlq

/-- The record as it is consumed next, and the number of replays that succeeded. -/
structure Laps where
  copy : ConsumedMessage
  replays : ℕ

/-- A failure that is routed, by a router with these permanent exceptions, or a replay; and the
    place from which its copy is consumed. -/
inductive LapAction
  | fail (nonRetryable : List ExcClass) (failure : Failure) (number offset : ℕ)
  | replay (number offset : ℕ)

section
variable [Unicode] (policy : RetryPolicy) (maxReplays : ℕ)

/-- A step that raises leaves the record where it is. -/
def Laps.step (s : Laps) : LapAction → Option Laps
  | .fail nonRetryable failure number offset =>
    let router : DeadLetterRouter := { policy, nonRetryable }
    match router.route s.copy failure.exc failure.now with
    | .ok routed => some { s with copy := routed.record.consumed number offset }
    | .error _ => some s
  | .replay number offset =>
    let replayer : DeadLetterReplayer := { policy, maxReplays }
    match replayer.replay s.copy with
    | .ok replayed => some ⟨replayed.record.consumed number offset, s.replays + 1⟩
    | .error _ => some s

/-- The count on the record is the number of its replays, which is bounded; at the bound there is no
    further one; and whatever a replay publishes is the original record, on its topic. -/
structure Counted (message : ConsumedMessage) (s : Laps) : Prop where
  count : readReplays s.copy = .ok s.replays
  bounded : s.replays ≤ maxReplays
  refused : s.replays = maxReplays → ∃ exc,
    ({ policy, maxReplays } : DeadLetterReplayer).replay s.copy = .error exc ∧
      exc.isInstance .replayNotPossibleError = true
  restored : ∀ replayed, ({ policy, maxReplays } : DeadLetterReplayer).replay s.copy = .ok replayed →
    replayed.record.topic = message.topic ∧ replayed.replays = s.replays + 1 ∧
      Untouched message replayed.record.key replayed.record.value replayed.record.headers

variable {policy maxReplays}

variable {envelope : DeadLetterEnvelope} {copy : ConsumedMessage} {replayed : Replayed} {n : ℕ}

/-! ## The invariant -/

/-- The record on its laps: what the application published, with an envelope that names its topic
    and has the count, or back on that topic with the count alone. -/
structure OnLap (policy : RetryPolicy) (maxReplays : ℕ) (message : ConsumedMessage) (s : Laps) :
    Prop where
  untouched : Untouched message s.copy.key s.copy.value s.copy.headers
  read : ∃ previous, DeadLetterRouter.readHeaders s.copy = .ok (previous, (s.replays : ℤ)) ∧
    (previous = none → s.copy.topic = message.topic) ∧
    ∀ envelope ∈ previous, envelope.originTopic = message.topic ∧ envelope.replays = s.replays
  bounded : s.replays ≤ maxReplays

variable {message : ConsumedMessage} {s : Laps}

theorem OnLap.reads (h : OnLap policy maxReplays message s) :
    ∃ previous, Dlq.read s.copy = .ok previous ∧ readReplays s.copy = .ok s.replays ∧
      ∀ envelope ∈ previous, envelope.originTopic = message.topic ∧
        envelope.replays = s.replays := by
  obtain ⟨previous, hread, -, hsome⟩ := h.read
  obtain ⟨_, hprevious, hread⟩ := bind_eq_ok.mp hread
  obtain ⟨_, hreplays, hread⟩ := bind_eq_ok.mp hread
  cases hread
  exact ⟨previous, hprevious, hreplays, hsome⟩

/-- A replay that succeeds strips the record, and puts the count on it. -/
theorem replay_eq_ok {replayer : DeadLetterReplayer} (h : replayer.replay copy = .ok replayed) :
    ∃ envelope text, Dlq.read copy = .ok (some envelope) ∧ envelope.replays < replayer.maxReplays ∧
      str ((envelope.replays + 1 : ℕ) : ℤ) = .ok text ∧
      replayed.replays = envelope.replays + 1 ∧
      replayed.record = { topic := envelope.originTopic, key := copy.key, value := copy.value,
                          headers := strip copy.headers ++ [(headerReplays, asciiBytes text)] } := by
  unfold DeadLetterReplayer.replay at h
  split at h
  · split at h <;> cases h
  · cases h
  · next envelope hread =>
    unfold DeadLetterReplayer.replayEnvelope at h
    split at h
    · cases h
    split at h
    · cases h
    split at h
    · obtain ⟨_, -, h⟩ := bind_eq_ok.mp h
      obtain ⟨_, -, h⟩ := bind_eq_ok.mp h
      cases h
    · next hlimit =>
      obtain ⟨own, hown, h⟩ := bind_eq_ok.mp h
      obtain ⟨text, htext, hown⟩ := bind_eq_ok.mp hown
      cases hown
      cases h
      exact ⟨envelope, text, hread, Nat.lt_of_not_le hlimit, htext, rfl, rfl⟩

/-- What was replayed carries the count and nothing else. -/
theorem readHeaders_replayed (headers : Headers) {text : Text} (htext : str n = .ok text)
    (hheaders : copy.headers = strip headers ++ [(headerReplays, asciiBytes text)]) :
    DeadLetterRouter.readHeaders copy = .ok (none, (n : ℤ)) := by
  have hnone : copy.header headerAttempts = none := by
    rw [ConsumedMessage.header, hheaders, List.lookup_append, lookup_strip (by decide)]
    rfl
  have hsome : copy.header headerReplays = some (asciiBytes text) := by
    rw [ConsumedMessage.header, hheaders, List.lookup_append, lookup_strip (by decide)]
    rfl
  have hread : Dlq.read copy = .ok none := by rw [Dlq.read, hnone]
  have hreplays : readReplays copy = .ok (n : ℤ) := by
    rw [readReplays, hsome]
    exact decodeInt_str headerReplays htext
  rw [DeadLetterRouter.readHeaders, hread, hreplays]
  rfl

theorem OnLap.replay (h : OnLap policy maxReplays message s)
    (hreplay : ({ policy, maxReplays } : DeadLetterReplayer).replay s.copy = .ok replayed) :
    replayed.record.topic = message.topic ∧ replayed.replays = s.replays + 1 ∧
      Untouched message replayed.record.key replayed.record.value replayed.record.headers ∧
      ∀ number offset, OnLap policy maxReplays message
        ⟨replayed.record.consumed number offset, s.replays + 1⟩ := by
  obtain ⟨previous, hread, -, hsome⟩ := h.reads
  obtain ⟨envelope, text, hread', hlimit, htext, hcount, hrecord⟩ := replay_eq_ok hreplay
  cases hread.symm.trans hread'
  obtain ⟨horigin, hreplays⟩ := hsome envelope rfl
  rw [hreplays] at hlimit htext hcount
  have hstripped : strip replayed.record.headers = message.headers := by
    have hown : strip [(headerReplays, asciiBytes text)] = [] := by
      simp [strip]
      decide
    rw [hrecord, strip_append, strip_strip, hown, List.append_nil, h.untouched.headers]
  have huntouched : Untouched message replayed.record.key replayed.record.value
      replayed.record.headers := by
    refine ⟨?_, ?_, hstripped⟩
    · rw [hrecord]
      exact h.untouched.key
    · rw [hrecord]
      exact h.untouched.value
  have htopic : replayed.record.topic = message.topic := by
    rw [hrecord]
    exact horigin
  refine ⟨htopic, hcount, huntouched, fun number offset => ⟨huntouched, ?_, hlimit⟩⟩
  refine ⟨none, ?_, fun _ => htopic, by simp⟩
  apply readHeaders_replayed s.copy.headers htext
  show replayed.record.headers = _
  rw [hrecord]

/-- A copy with an envelope that names the topic and has the count. -/
theorem onLap_of_read (huntouched : Untouched message copy.key copy.value copy.headers)
    (hread : Dlq.read copy = .ok (some envelope)) (horigin : envelope.originTopic = message.topic)
    (hreplays : envelope.replays = n) (hbound : n ≤ maxReplays) :
    OnLap policy maxReplays message ⟨copy, n⟩ := by
  refine ⟨huntouched, ⟨some envelope, ?_, nofun, ?_⟩, hbound⟩
  · rw [DeadLetterRouter.readHeaders, hread, (readOff_of_read hread).replays, hreplays]
    rfl
  · rintro _ ⟨⟩
    exact ⟨horigin, hreplays⟩

/-- What the invariant is kept for: a record with a key or a value, from a topic that is no rung. -/
structure Replayable (policy : RetryPolicy) (message : ConsumedMessage) : Prop where
  kept : message.key.isSome ∨ message.value.isSome
  notLadder : policy.originOf message.topic = none

section

variable (h : OnLap policy maxReplays message s)

include h

theorem OnLap.fail (hmessage : Replayable policy message) {nonRetryable : List ExcClass} {exc : Exc}
    {now : Utc} {routed : Routed}
    (hroute : ({ policy, nonRetryable } : DeadLetterRouter).route s.copy exc now = .ok routed)
    (number offset : ℕ) :
    OnLap policy maxReplays message { s with copy := routed.record.consumed number offset } := by
  obtain ⟨previous, hread, hnone, hsome⟩ := h.read
  have horigin : ({ policy, nonRetryable } : DeadLetterRouter).originOf previous s.copy =
      message.topic := by
    cases previous with
    | none =>
      rw [DeadLetterRouter.originOf, hnone rfl, hmessage.notLadder]
      rfl
    | some envelope => exact (hsome envelope rfl).1
  rw [DeadLetterRouter.route, hread] at hroute
  have hroutable := (DeadLetterRouter.returns_routeReadable hread).mp ⟨routed, hroute⟩
  dsimp only at hroute
  rw [DeadLetterRouter.routeReadable_eq hroutable.usable, horigin] at hroute
  obtain ⟨envelope, henvelope, hroute⟩ := bind_eq_ok.mp hroute
  obtain ⟨record, hrecord, hroute⟩ := bind_eq_ok.mp hroute
  cases hroute
  have hutc := advance_inUtc (DeadLetterRouter.readHeaders_inUtc hread) henvelope
  have hreads := read_republish hutc hrecord number offset
  obtain ⟨due, hdue, -⟩ := dueAt_eq (DeadLetterRouter.delay_nonneg _ exc _) hroutable.inTime
  rw [advance_eq _ _ _ hdue fun hnone => (hroutable.first hnone).1] at henvelope
  cases henvelope
  -- the envelope names the topic and has the count, wherever it got them from
  have hnext : (nextEnvelope s.copy message.topic now due.aware (shown (describe exc))
      (s.replays : ℤ).toNat previous).originTopic = message.topic ∧
      (nextEnvelope s.copy message.topic now due.aware (shown (describe exc))
        (s.replays : ℤ).toNat previous).replays = s.replays := by
    cases previous with
    | none => exact ⟨rfl, rfl⟩
    | some envelope => exact hsome envelope rfl
  have hkept : s.copy.key.isSome ∨ s.copy.value.isSome := by
    rw [h.untouched.key, h.untouched.value]
    exact hmessage.kept
  obtain ⟨-, hvalue, hkey⟩ := republish_eq_ok hrecord
  obtain ⟨hsame, hstamped⟩ := republishKey_kept hkept hkey
  exact onLap_of_read ⟨hsame.trans h.untouched.key, hvalue.trans h.untouched.value,
    hstamped.strip_eq.trans h.untouched.headers⟩ hreads hnext.1 hnext.2 h.bounded

theorem OnLap.step {s' : Laps} {a : LapAction} (hmessage : Replayable policy message)
    (hstep : s.step policy maxReplays a = some s') : OnLap policy maxReplays message s' := by
  cases a with
  | fail nonRetryable failure number offset =>
    simp only [Laps.step] at hstep
    split at hstep
    · next routed hroute =>
      cases hstep
      exact h.fail hmessage hroute number offset
    · cases hstep
      exact h
  | replay number offset =>
    simp only [Laps.step] at hstep
    split at hstep
    · next replayed hreplay =>
      cases hstep
      exact (h.replay hreplay).2.2.2 number offset
    · cases hstep
      exact h

/-- At the bound a replay is refused, as it is for a record that has no envelope. -/
theorem OnLap.refused (hbound : s.replays = maxReplays) :
    ∃ exc, ({ policy, maxReplays } : DeadLetterReplayer).replay s.copy = .error exc ∧
      exc.isInstance .replayNotPossibleError = true := by
  obtain ⟨previous, hread, hcount, hsome⟩ := h.reads
  rw [DeadLetterReplayer.replay, hread]
  cases previous with
  | none => exact ⟨_, rfl, ExcClass.isInstance_error _ _ _⟩
  | some envelope =>
    obtain ⟨-, hreplays⟩ := hsome envelope rfl
    have hshort : Short maxReplays := by
      have := readReplays_lt hcount
      rwa [Int.toNat_natCast, hbound] at this
    obtain ⟨text, htext⟩ := (returns_str maxReplays).mpr hshort
    dsimp only [DeadLetterReplayer.replayEnvelope]
    split
    · exact ⟨_, rfl, ExcClass.isInstance_error _ _ _⟩
    split
    · exact ⟨_, rfl, ExcClass.isInstance_error _ _ _⟩
    · rw [if_pos (by omega), hreplays, hbound, htext, ok_bind, ok_bind]
      exact ⟨_, rfl, ExcClass.isInstance_error _ _ _⟩

end

/-- **Replays are bounded and counted**, for a record with a key or a value that was published to a
    topic which is no rung of a ladder. -/
theorem replays_counted (hmessage : Replayable policy message)
    (hplain : ∀ header ∈ message.headers, startsWith header.1 headerPrefix = false) {s : Laps}
    (hrun : Run (Laps.step policy maxReplays) Always ⟨message, 0⟩ s) :
    Counted policy maxReplays message s := by
  have hstart : OnLap policy maxReplays message ⟨message, 0⟩ := by
    have haboard := aboard_self hplain ⟨0, by decide⟩
    obtain ⟨previous, replays, hread, hnone, hsome⟩ := haboard.envelope
    cases previous with
    | none =>
      obtain ⟨-, -, rfl⟩ := hnone rfl
      exact ⟨haboard.untouched, ⟨none, hread, fun _ => rfl, by simp⟩, Nat.zero_le _⟩
    | some envelope =>
      have := (hsome envelope rfl).attempts
      have := envelope.one_le_attempts
      omega
  have h := hrun.invariant (fun h _ => OnLap.step h hmessage) hstart
  obtain ⟨_, -, hcount, -⟩ := h.reads
  refine ⟨hcount, h.bounded, h.refused, fun replayed hreplay => ?_⟩
  obtain ⟨htopic, hreplays, huntouched, -⟩ := h.replay hreplay
  exact ⟨htopic, hreplays, huntouched⟩

end

/-- A record that fails, is replayed, and fails again. -/
theorem replays_counted_twice :
    letI : Unicode := .ascii
    let message : ConsumedMessage := ⟨⟨lit "orders", 0⟩, 7, none, some [1], []⟩
    ∃ s, Run (Laps.step {} 1) Always ⟨message, 0⟩ s ∧ s.replays = 1 ∧ Counted {} 1 message s := by
  intro message
  let : Unicode := .ascii
  have hmessage : Replayable {} message := ⟨.inr rfl, by decide +kernel⟩
  refine Run.exists_of_replay_and [LapAction.fail [] transient 0 0, .replay 0 8,
    .fail [] transient 0 1, .replay 0 9] (by decide +kernel) fun hrun _ => ?_
  exact replays_counted hmessage (by simp [message]) hrun

/-- A record with neither key nor value that fails twice comes back with a key. -/
theorem replays_invent_a_key :
    letI : Unicode := .ascii
    ∃ s, Run (Laps.step {} 1) Always ⟨bareRecord, 0⟩ s ∧ ¬ Counted {} 1 bareRecord s := by
  let : Unicode := .ascii
  obtain ⟨s, hrun, hs⟩ : ∃ s : Laps, Run (Laps.step {} 1) Always ⟨bareRecord, 0⟩ s ∧
      (({ policy := {}, maxReplays := 1 } : DeadLetterReplayer).replay s.copy).toOption.any
        (fun replayed => replayed.record.key.isSome) = true := by
    refine Run.exists_of_replay [.fail [] transient 0 0, .fail [] transient 0 0] ?_
    decide +kernel
  refine ⟨s, hrun, fun h => ?_⟩
  cases hreplayed : ({ policy := {}, maxReplays := 1 } : DeadLetterReplayer).replay s.copy with
  | error =>
    rw [hreplayed] at hs
    cases hs
  | ok replayed =>
    rw [hreplayed] at hs
    have hkey := (h.restored replayed hreplayed).2.2.key
    have hsome : replayed.record.key.isSome = true := hs
    rw [hkey] at hsome
    cases hsome

end Dlq
