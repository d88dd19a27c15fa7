import FastapiBoilerplate.Lib.Run
import FastapiBoilerplate.RedisStreams.Memory

/-!
# The consume loop over the in-process server

`StreamConsumerRunner` of `src/redis_streams/consumer.py`. A runner is where its cycle stands, a
`Phase`, and everything it awaits is a step of its own, a `Turn`: the scan, the claim, each of the
two looks of a read, the call of the handler and its return, the dead-letter publish, the
acknowledgement. Between any two of them every other runner, the producers and whoever deletes
entries may do anything, which is what a list of `Action`s says.

A publish or an acknowledgement may also fail, and the failure does not tell whether the server
carried it out: `Reply`. `cancel` ends a cycle at any point; so does an exception that nothing in
`consume_once` catches, of the group or of the handler. What has happened is written to a log
that nothing reads.

The backoff between cycles, the handler's time limit and the log lines are left out.
-/

namespace RedisStreams

open Lib List

/-- `StreamConsumerConfig`, with what `__post_init__` asks of it. -/
structure StreamConsumerConfig where
  batchSize : ℕ := 50
  blockTimeout : Seconds := 2
  minIdle : Seconds := 60
  claimBatch : ℕ := 20
  maxDeliveries : ℕ := 5
  deadLetterSuffix : Text := lit ".dead"
  batchSize_pos : 1 ≤ batchSize := by decide
  blockTimeout_pos : 0 < blockTimeout := by decide
  minIdle_pos : 0 < minIdle := by decide
  claimBatch_pos : 1 ≤ claimBatch := by decide
  maxDeliveries_pos : 1 ≤ maxDeliveries := by decide
  deadLetterSuffix_ne : deadLetterSuffix ≠ [] := by decide

/-- `ConsumeResult`. -/
structure ConsumeResult where
  read : ℕ := 0
  claimed : ℕ := 0
  delivered : ℕ := 0
  failed : ℕ := 0
  deadLettered : ℕ := 0
  vanished : ℕ := 0
  deriving DecidableEq

/-- `DEAD_LETTER_PREFIX`. -/
def deadLetterMark : Text := lit "x-dead-"

/-- The fields of a dead-lettered copy, as `_dead_letter` builds them; `none` when a name cannot
    be encoded or a number is too long to print. -/
def deadLetterFields (group : InMemoryStreamGroup) (message : StreamMessage) : Option Fields := do
  let stream ← utf8Encode message.stream
  let id ← message.id.str
  let name ← utf8Encode group.group
  let consumer ← utf8Encode group.consumer
  let deliveries ← strInt message.deliveryCount
  return ((((message.fields.set (deadLetterMark ++ lit "stream") stream).set
    (deadLetterMark ++ lit "id") (asciiBytes id)).set
    (deadLetterMark ++ lit "group") name).set
    (deadLetterMark ++ lit "consumer") consumer).set
    (deadLetterMark ++ lit "deliveries") (asciiBytes deliveries)

/-- Where a cycle stands. `waiting` is a read that found nothing, with the last id of the stream
    when it began to wait; the event it waits for is set when an entry has been appended since. -/
inductive Phase
  | idle
  | scanned (entries : List PendingEntry)
  | reading (claimed : List StreamMessage) (vanished : ℕ)
  | waiting (claimed : List StreamMessage) (vanished : ℕ) (since : StreamEntryId)
  | working (todo : List StreamMessage) (acked : List StreamEntryId) (result : ConsumeResult)
  | handling (message : StreamMessage) (todo : List StreamMessage) (acked : List StreamEntryId)
      (result : ConsumeResult)
  | deadLettering (message : StreamMessage) (todo : List StreamMessage)
      (acked : List StreamEntryId) (result : ConsumeResult)
  deriving DecidableEq

namespace Phase

/-- The messages a cycle has taken and not done with. -/
def inHand : Phase → List StreamMessage
  | idle | scanned _ => []
  | reading claimed _ | waiting claimed _ _ => claimed
  | working todo _ _ => todo
  | handling message todo _ _ | deadLettering message todo _ _ => message :: todo

/-- Those of them for which the handler may still be called. -/
def uncalled : Phase → List StreamMessage
  | idle | scanned _ => []
  | reading claimed _ | waiting claimed _ _ => claimed
  | working todo _ _ | handling _ todo _ _ | deadLettering _ todo _ _ => todo

/-- `acked`: the ids that the cycle's acknowledgement will name. -/
def acked : Phase → List StreamEntryId
  | idle | scanned _ | reading _ _ | waiting _ _ _ => []
  | working _ acked _ | handling _ _ acked _ | deadLettering _ _ acked _ => acked

end Phase

/-- `StreamConsumerRunner`, with the result of its last complete cycle. -/
structure Runner where
  group : InMemoryStreamGroup
  config : StreamConsumerConfig := {}
  phase : Phase := .idle
  result : Option ConsumeResult := none

/-- A runner that has not run yet. -/
def Runner.unused (s g c : Char) (maxDeliveries : ℕ) (hmax : 1 ≤ maxDeliveries) : Runner :=
  ⟨⟨letter s, letter g, letter c, 0, false, letter_ne s, letter_ne g, letter_ne c⟩,
    { maxDeliveries, maxDeliveries_pos := hmax }, .idle, none⟩

inductive Event
  | created
  | appended (stream : Text) (id : StreamEntryId) (fields : Fields)
  | removed (stream : Text) (id : StreamEntryId)
  | read (consumer : Text) (id : StreamEntryId)
  | claimed (consumer : Text) (id : StreamEntryId) (deliveryCount : ℕ)
  | invoked (id : StreamEntryId) (deliveryCount : ℕ)
  | returned (id : StreamEntryId)
  | acked (id : StreamEntryId)
  deriving DecidableEq

/-- How a handler ended, when not with an exception that `_handle` lets through. -/
inductive Outcome
  | returned
  | raised
  | timedOut

/-- How a publish or an acknowledgement ended: carried out, refused, or carried out and reported
    as a failure. -/
inductive Reply
  | landed
  | refused
  | unanswered

inductive Turn
  | start
  | stop
  | scan
  | claim
  | read
  | woken
  | readTimeout
  | next
  | handled (outcome : Outcome)
  | deadLetter (reply : Reply)
  | ack (reply : Reply)
  | cancel

/-- What `append` does to a stream, for the log. -/
def appendEvents (server : Server) (now : Seconds) (name : Text) (fields : Fields) (maxlen : ℕ) :
    List Event :=
  .appended name ((server.streamFor name).nextId now) fields ::
    (server.overflow now name fields maxlen).map (.removed name)

namespace Runner

variable (r : Runner) (server : Server) (now : Seconds)

/-- `dead_letter_stream`. -/
def deadLetterStream : Text := r.group.stream ++ r.config.deadLetterSuffix

def goto (phase : Phase) : Runner := { r with phase }

/-- A step that changes nothing on the server. -/
def rest (phase : Phase) : Server × Runner × List Event := (server, r.goto phase, [])

/-- Into the loop over `(*claimed, *fresh)`. -/
def begin (claimed fresh : List StreamMessage) (vanished : ℕ) : Phase :=
  .working (claimed ++ fresh) [] { read := fresh.length, claimed := claimed.length, vanished }

/-- After `_claim_stalled`: to the read, if the budget has anything left. -/
def afterClaim (claimed : List StreamMessage) (vanished : ℕ) : Phase :=
  if 0 < r.config.batchSize - claimed.length then .reading claimed vanished
  else begin claimed [] vanished

/-- `_claim_stalled`, the scan. -/
def scan : Server × Runner × List Event :=
  match r.group.stalled server now r.config.minIdle r.config.claimBatch none with
  | .error _ => r.rest server .idle
  | .ok [] => r.rest server (r.afterClaim [] 0)
  | .ok entries => r.rest server (.scanned entries)

/-- `_claim_stalled`, the claim. -/
def claim (entries : List PendingEntry) : Server × Runner × List Event :=
  match r.group.claim server now entries r.config.minIdle with
  | .error _ => r.rest server .idle
  | .ok (server, out) =>
    (server, r.goto (r.afterClaim out.messages out.missing.length),
      out.messages.map fun m => .claimed r.group.consumer m.id m.deliveryCount)

/-- How long `read` may wait for a message. -/
def block (claimed : List StreamMessage) : Seconds :=
  if claimed = [] then r.config.blockTimeout else 0

/-- The first look of `read`. It waits if it found nothing and `block` allows for it. -/
def read (claimed : List StreamMessage) (vanished : ℕ) : Server × Runner × List Event :=
  match r.group.readNow server now (r.config.batchSize - claimed.length) with
  | .error _ => r.rest server .idle
  | .ok (server, fresh) =>
    (server,
      r.goto (if fresh = [] ∧ 0 < r.block claimed then
          .waiting claimed vanished (server.streamFor r.group.stream).lastId
        else begin claimed fresh vanished),
      fresh.map fun m => .read r.group.consumer m.id)

/-- The second look of `read`. -/
def readAgain (claimed : List StreamMessage) (vanished : ℕ) : Server × Runner × List Event :=
  match r.group.readNow server now (r.config.batchSize - claimed.length) with
  | .error _ => r.rest server .idle
  | .ok (server, fresh) =>
    (server, r.goto (begin claimed fresh vanished),
      fresh.map fun m => .read r.group.consumer m.id)

/-- The head of the loop over the messages: past the cap, to the dead-letter stream; otherwise the
    handler is called. -/
def next (message : StreamMessage) (todo : List StreamMessage) (acked : List StreamEntryId)
    (result : ConsumeResult) : Server × Runner × List Event :=
  if r.config.maxDeliveries < message.deliveryCount then
    r.rest server (.deadLettering message todo acked result)
  else
    (server, r.goto (.handling message todo acked result),
      [.invoked message.id message.deliveryCount])

/-- `_handle`, when the handler has ended. -/
def handled (message : StreamMessage) (todo : List StreamMessage) (acked : List StreamEntryId)
    (result : ConsumeResult) : Outcome → Server × Runner × List Event
  | .returned =>
    (server,
      r.goto (.working todo (acked ++ [message.id]) { result with delivered := result.delivered + 1 }),
      [.returned message.id])
  | .raised | .timedOut =>
    r.rest server (.working todo acked { result with failed := result.failed + 1 })

/-- `_dead_letter`, with the fields of the copy. -/
def deadLetterCopy (message : StreamMessage) (todo : List StreamMessage)
    (acked : List StreamEntryId) (result : ConsumeResult) (fields : Fields) :
    Reply → Server × Runner × List Event
  | .refused => r.rest server (.working todo acked { result with failed := result.failed + 1 })
  | .landed =>
    match r.group.publish server now fields (some r.deadLetterStream) with
    | .error _ => r.rest server .idle
    | .ok (server', _) =>
      (server', r.goto (.working todo (acked ++ [message.id])
          { result with deadLettered := result.deadLettered + 1 }),
        appendEvents server now r.deadLetterStream fields r.group.maxlen)
  | .unanswered =>
    match r.group.publish server now fields (some r.deadLetterStream) with
    | .error _ => r.rest server .idle
    | .ok (server', _) =>
      (server', r.goto (.working todo acked { result with failed := result.failed + 1 }),
        appendEvents server now r.deadLetterStream fields r.group.maxlen)

/-- `_dead_letter`. -/
def deadLetter (message : StreamMessage) (todo : List StreamMessage) (acked : List StreamEntryId)
    (result : ConsumeResult) (reply : Reply) : Server × Runner × List Event :=
  match deadLetterFields r.group message with
  | none => r.rest server .idle
  | some fields => r.deadLetterCopy server now message todo acked result fields reply

/-- The end of a cycle. -/
def finish (result : ConsumeResult) : Runner := { r with phase := .idle, result := some result }

/-- `_ack`, and the end of the cycle. -/
def ack (acked : List StreamEntryId) (result : ConsumeResult) :
    Reply → Server × Runner × List Event
  | .refused => (server, r.finish result, [])
  | .landed | .unanswered =>
    match r.group.ack server acked with
    | .error _ => (server, r.finish result, [])
    | .ok (server, popped) => (server, r.finish result, popped.map .acked)

/-- `InMemoryStreamGroup.start`. -/
def start : Server × Runner × List Event :=
  ((r.group.start server).2, { r with group := (r.group.start server).1 },
    if server.groupFor r.group.stream r.group.group = none then [.created] else [])

/-- One step of a runner: the server after it, the runner after it, and what to log. -/
def turn : Turn → Option (Server × Runner × List Event)
  | .start => some (r.start server)
  | .stop => some (server, { r with group := r.group.stop }, [])
  | .cancel => some (r.rest server .idle)
  | .scan =>
    match r.phase with
    | .idle => some (r.scan server now)
    | _ => none
  | .claim =>
    match r.phase with
    | .scanned entries => some (r.claim server now entries)
    | _ => none
  | .read =>
    match r.phase with
    | .reading claimed vanished => some (r.read server now claimed vanished)
    | _ => none
  | .woken =>
    match r.phase with
    | .waiting claimed vanished since =>
      if (server.streamFor r.group.stream).lastId = since then none
      else some (r.readAgain server now claimed vanished)
    | _ => none
  | .readTimeout =>
    match r.phase with
    | .waiting claimed vanished _ => some (r.rest server (begin claimed [] vanished))
    | _ => none
  | .next =>
    match r.phase with
    | .working (message :: todo) acked result => some (r.next server message todo acked result)
    | _ => none
  | .handled outcome =>
    match r.phase with
    | .handling message todo acked result =>
      some (r.handled server message todo acked result outcome)
    | _ => none
  | .deadLetter reply =>
    match r.phase with
    | .deadLettering message todo acked result =>
      some (r.deadLetter server now message todo acked result reply)
    | _ => none
  | .ack reply =>
    match r.phase with
    | .working [] acked result => some (r.ack server acked result reply)
    | _ => none

end Runner

/-! ## What a turn does -/

/-- What a turn can do to the server and the log, and what the runner has in hand after it. -/
inductive Effect (r : Runner) (server : Server) (now : Seconds) :
    Server → Runner → List Event → Prop
  | rests {r' : Runner} (inHand : r'.phase.inHand ⊆ r.phase.inHand)
      (uncalled : r'.phase.uncalled.Sublist r.phase.uncalled)
      (acked : r'.phase.acked ⊆ r.phase.acked) : Effect r server now server r' []
  | creates {r' : Runner} (new : server.groupFor r.group.stream r.group.group = none)
      (phase : r'.phase = r.phase) :
      Effect r server now
        (server.setGroup r.group.stream r.group.group ⟨(server.streamFor r.group.stream).lastId, ∅⟩)
        r' [.created]
  | claims {r' : Runner} {g : Group} {out : Group × ClaimedMessage} (entries : List PendingEntry)
      (found : server.groupFor r.group.stream r.group.group = some g)
      (claim : g.claimLoop (server.streamFor r.group.stream).entries r.group.stream
        r.group.consumer now r.config.minIdle entries = out)
      (inHand : r'.phase.inHand = out.2.messages) (uncalled : r'.phase.uncalled = out.2.messages)
      (acked : r'.phase.acked = []) :
      Effect r server now (server.setGroup r.group.stream r.group.group out.1) r'
        (out.2.messages.map fun m => .claimed r.group.consumer m.id m.deliveryCount)
  | reads {r' : Runner} {g : Group} {out : Group × List StreamMessage} (count : ℕ)
      (found : server.groupFor r.group.stream r.group.group = some g)
      (read : g.readLoop r.group.stream r.group.consumer now count
        (server.streamFor r.group.stream).sorted [] = out)
      (inHand : r'.phase.inHand = r.phase.inHand ++ out.2)
      (uncalled : r'.phase.uncalled = r.phase.uncalled ++ out.2) (acked : r'.phase.acked = []) :
      Effect r server now (server.setGroup r.group.stream r.group.group out.1) r'
        (out.2.map fun m => .read r.group.consumer m.id)
  | invokes {r' : Runner} (message : StreamMessage)
      (within : message.deliveryCount ≤ r.config.maxDeliveries)
      (inHand : r'.phase.inHand = r.phase.inHand)
      (uncalled : r.phase.uncalled = message :: r'.phase.uncalled)
      (acked : r'.phase.acked = r.phase.acked) :
      Effect r server now server r' [.invoked message.id message.deliveryCount]
  | returns {r' : Runner} (message : StreamMessage)
      (inHand : r'.phase.inHand ⊆ r.phase.inHand) (uncalled : r'.phase.uncalled = r.phase.uncalled)
      (acked : r'.phase.acked = r.phase.acked ++ [message.id]) :
      Effect r server now server r' [.returned message.id]
  | copies {r' : Runner} {server' : Server} {id : StreamEntryId} {fields : Fields}
      (message : StreamMessage) (mem : message ∈ r.phase.inHand)
      (copy : deadLetterFields r.group message = some fields)
      (append : server.append now r.deadLetterStream fields r.group.maxlen = .ok (server', id))
      (inHand : r'.phase.inHand ⊆ r.phase.inHand) (uncalled : r'.phase.uncalled = r.phase.uncalled)
      (acked : r'.phase.acked ⊆ r.phase.acked ++ [message.id]) :
      Effect r server now server' r'
        (appendEvents server now r.deadLetterStream fields r.group.maxlen)
  | acks {r' : Runner} {g : Group} {out : Group × List StreamEntryId} (ids : List StreamEntryId)
      (found : server.groupFor r.group.stream r.group.group = some g)
      (pop : g.ackLoop ids = out) (mem : ids ⊆ r.phase.acked) (phase : r'.phase = .idle) :
      Effect r server now (server.setGroup r.group.stream r.group.group out.1) r'
        (out.2.map .acked)

/-- The effect of a turn with this outcome. -/
abbrev Runner.Does (r : Runner) (server : Server) (now : Seconds)
    (out : Server × Runner × List Event) : Prop := Effect r server now out.1 out.2.1 out.2.2

section
variable {r r' : Runner} {server : Server} {now : Seconds}

variable {g : Group} {vanished : ℕ} {t : Turn} {out : Server × Runner × List Event}

theorem InMemoryStreamGroup.requireStarted_eq_ok {c : InMemoryStreamGroup}
    (h : c.requireStarted server = .ok g) : server.groupFor c.stream c.group = some g := by
  unfold requireStarted at h
  split at h
  · split at h <;> cases h
    assumption
  · cases h

theorem Effect.idle (h : r'.phase = .idle) : Effect r server now server r' [] := by
  apply Effect.rests <;> simp [h, Phase.inHand, Phase.uncalled, Phase.acked]

section

variable (claimed : List StreamMessage) (vanished : ℕ)

@[simp] theorem Runner.inHand_afterClaim : (r.afterClaim claimed vanished).inHand = claimed := by
  unfold Runner.afterClaim
  split <;> simp [Phase.inHand, Runner.begin]

@[simp] theorem Runner.uncalled_afterClaim :
    (r.afterClaim claimed vanished).uncalled = claimed := by
  unfold Runner.afterClaim
  split <;> simp [Phase.uncalled, Runner.begin]

@[simp] theorem Runner.acked_afterClaim : (r.afterClaim claimed vanished).acked = [] := by
  unfold Runner.afterClaim
  split <;> rfl

end

theorem Runner.scan_effect : r.Does server now (r.scan server now) := by
  unfold Runner.scan
  split
  · exact .idle rfl
  · refine .rests ?_ ?_ ?_
    · show (r.afterClaim [] 0).inHand ⊆ _
      simp
    · show (r.afterClaim [] 0).uncalled.Sublist _
      simp
    · show (r.afterClaim [] 0).acked ⊆ _
      simp
  · exact .rests (nil_subset _) (nil_sublist _) (nil_subset _)

theorem Runner.claim_effect (entries : List PendingEntry) :
    r.Does server now (r.claim server now entries) := by
  unfold Runner.claim InMemoryStreamGroup.claim
  cases hgroup : r.group.requireStarted server with
  | error => exact .idle rfl
  | ok =>
    exact .claims entries (InMemoryStreamGroup.requireStarted_eq_ok hgroup) rfl
      (r.inHand_afterClaim _ _) (r.uncalled_afterClaim _ _) (r.acked_afterClaim _ _)

variable {claimed todo : List StreamMessage} {message : StreamMessage}
  {acked : List StreamEntryId} {result : ConsumeResult}

theorem Runner.read_effect (hphase : r.phase = .reading claimed vanished) :
    r.Does server now (r.read server now claimed vanished) := by
  obtain ⟨group, config, phase, last⟩ := r
  cases hphase
  unfold Runner.read InMemoryStreamGroup.readNow
  cases hgroup : group.requireStarted server with
  | error => exact .idle rfl
  | ok =>
    refine .reads _ (InMemoryStreamGroup.requireStarted_eq_ok hgroup) rfl ?_ ?_ ?_
    all_goals
      dsimp only [Runner.goto]
      split <;> simp_all [Phase.inHand, Phase.uncalled, Phase.acked, Runner.begin]

theorem Runner.readAgain_effect {since : StreamEntryId}
    (hphase : r.phase = .waiting claimed vanished since) :
    r.Does server now (r.readAgain server now claimed vanished) := by
  obtain ⟨group, config, phase, last⟩ := r
  cases hphase
  unfold Runner.readAgain InMemoryStreamGroup.readNow
  cases hgroup : group.requireStarted server with
  | error => exact .idle rfl
  | ok => exact .reads _ (InMemoryStreamGroup.requireStarted_eq_ok hgroup) rfl rfl rfl rfl

theorem Runner.next_effect (hphase : r.phase = .working (message :: todo) acked result) :
    r.Does server now (r.next server message todo acked result) := by
  obtain ⟨group, config, phase, last⟩ := r
  cases hphase
  unfold Runner.next
  split
  · exact .rests (List.Subset.refl _) (sublist_cons_self _ _) (List.Subset.refl _)
  · rename_i hwithin
    exact .invokes message (Nat.le_of_not_lt hwithin) rfl rfl rfl

theorem Runner.handled_effect (hphase : r.phase = .handling message todo acked result)
    (outcome : Outcome) :
    r.Does server now (r.handled server message todo acked result outcome) := by
  obtain ⟨group, config, phase, last⟩ := r
  cases hphase
  cases outcome with
  | returned => exact .returns message (subset_cons_self _ _) rfl rfl
  | raised | timedOut =>
    exact .rests (subset_cons_self _ _) (List.Sublist.refl _) (List.Subset.refl _)

theorem Runner.deadLetter_effect (hphase : r.phase = .deadLettering message todo acked result)
    (reply : Reply) :
    r.Does server now (r.deadLetter server now message todo acked result reply) := by
  obtain ⟨group, config, phase, last⟩ := r
  cases hphase
  unfold Runner.deadLetter
  split
  · exact .idle rfl
  rename_i fields hcopy
  cases reply with
  | refused => exact .rests (subset_cons_self _ _) (List.Sublist.refl _) (List.Subset.refl _)
  | landed =>
    simp only [Runner.deadLetterCopy]
    split
    · exact .idle rfl
    · exact .copies message mem_cons_self hcopy ‹_› (subset_cons_self _ _) rfl (List.Subset.refl _)
  | unanswered =>
    simp only [Runner.deadLetterCopy]
    split
    · exact .idle rfl
    · exact .copies message mem_cons_self hcopy ‹_› (subset_cons_self _ _) rfl
        (subset_append_left _ _)

theorem Runner.ack_effect (hphase : r.phase = .working [] acked result) (reply : Reply) :
    r.Does server now (r.ack server acked result reply) := by
  obtain ⟨group, config, phase, last⟩ := r
  cases hphase
  cases reply with
  | refused => exact .idle rfl
  | landed | unanswered =>
    simp only [Runner.ack, InMemoryStreamGroup.ack]
    by_cases hnone : acked = []
    · rw [if_pos hnone]
      exact .idle rfl
    rw [if_neg hnone]
    cases hgroup : group.requireStarted server with
    | error => exact .idle rfl
    | ok =>
      exact .acks acked (InMemoryStreamGroup.requireStarted_eq_ok hgroup) rfl
        (List.Subset.refl _) rfl

theorem Runner.start_effect : r.Does server now (r.start server) := by
  unfold Runner.start InMemoryStreamGroup.start
  cases hgroup : server.groupFor r.group.stream r.group.group with
  | none => exact .creates hgroup rfl
  | some => exact .rests (List.Subset.refl _) (List.Sublist.refl _) (List.Subset.refl _)

theorem Runner.turn_effect (h : r.turn server now t = some out) : r.Does server now out := by
  cases t with simp only [Runner.turn] at h
  | start =>
    cases h
    exact r.start_effect
  | stop =>
    cases h
    exact .rests (List.Subset.refl _) (List.Sublist.refl _) (List.Subset.refl _)
  | cancel =>
    cases h
    exact .idle rfl
  | scan =>
    split at h <;> cases h
    exact r.scan_effect
  | claim =>
    split at h <;> cases h
    exact r.claim_effect _
  | read =>
    split at h <;> cases h
    exact r.read_effect ‹_›
  | woken =>
    split at h <;> [split at h; skip] <;> cases h
    exact r.readAgain_effect ‹_›
  | readTimeout =>
    split at h <;> cases h
    rename_i claimed vanished since hphase
    refine .rests ?_ ?_ ?_
    all_goals
      rw [hphase]
      simp [Runner.rest, Runner.goto, Runner.begin, Phase.inHand, Phase.uncalled, Phase.acked]
  | next =>
    split at h <;> cases h
    exact r.next_effect ‹_›
  | handled outcome =>
    split at h <;> cases h
    exact r.handled_effect ‹_› outcome
  | deadLetter reply =>
    split at h <;> cases h
    exact r.deadLetter_effect ‹_› reply
  | ack reply =>
    split at h <;> cases h
    exact r.ack_effect ‹_› reply

/-- A turn changes neither what the runner consumes nor its configuration. -/
def Runner.Kin (r r' : Runner) : Prop :=
  r'.group.stream = r.group.stream ∧ r'.group.group = r.group.group ∧ r'.config = r.config

theorem Runner.turn_kin (h : r.turn server now t = some out) : r.Kin out.2.1 := by
  cases t <;> simp only [Runner.turn] at h <;> repeat' split at h
  all_goals
    cases h
    try simp only [Runner.scan, Runner.claim, Runner.read, Runner.readAgain, Runner.next,
      Runner.handled, Runner.deadLetter, Runner.deadLetterCopy, Runner.ack]
    repeat' split
    all_goals exact ⟨rfl, rfl, rfl⟩

end

/-! ## The system -/

structure Sys where
  server : Server := {}
  now : Seconds := 0
  runners : List Runner
  log : List Event := []

inductive Action
  | tick (seconds : Seconds)
  | publish (stream : Text) (fields : Fields) (maxlen : ℕ)
  | delete (stream : Text) (id : StreamEntryId)
  | turn (i : ℕ) (t : Turn)

namespace Sys

def publish (s : Sys) (stream : Text) (fields : Fields) (maxlen : ℕ) : Sys :=
  match s.server.append s.now stream fields maxlen with
  | .error _ => s
  | .ok (server, _) =>
    { s with
      server
      log := s.log ++ appendEvents s.server s.now stream fields maxlen }

def delete (s : Sys) (stream : Text) (id : StreamEntryId) : Sys :=
  { s with
    server := (s.server.delete stream id).1
    log := s.log ++ if (s.server.delete stream id).2 = 1 then [.removed stream id] else [] }

def step (s : Sys) : Action → Option Sys
  | .tick seconds => if 0 ≤ seconds then some { s with now := s.now + seconds } else none
  | .publish stream fields maxlen => some (s.publish stream fields maxlen)
  | .delete stream id => some (s.delete stream id)
  | .turn i t =>
    match s.runners[i]? with
    | none => none
    | some r =>
      (r.turn s.server s.now t).map fun (server, r', events) =>
        { s with server, runners := s.runners.set i r', log := s.log ++ events }

/-- An empty server, and runners of one group that have not begun. -/
structure Initial (stream group : Text) (s : Sys) : Prop where
  server : s.server = {}
  log : s.log = []
  runners : ∀ r ∈ s.runners, r.group.stream = stream ∧ r.group.group = group ∧ r.phase = .idle

end Sys

end RedisStreams
