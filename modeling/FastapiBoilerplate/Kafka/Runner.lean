import Mathlib.Data.List.TakeWhile
import FastapiBoilerplate.Decorators.Base
import FastapiBoilerplate.Kafka.Broker
import FastapiBoilerplate.Lib.Run

/-!
# Consumers of one broker

Any number of `ConsumerRunner`s (`src/kafka/runner.py`), each driving an `InMemoryMessageSource`
(`src/kafka/memory.py`) of some group, and the publishers that write to the same broker. A source
starts at the earliest offset, the default.

The steps are those between which another task can run, and a few more: a poll that finds
something; what the handler did with a record; the seek that follows unless it returned; the
commit that ends a batch. A `start` or `stop` of any source can come in between any two of them,
whatever its runner is doing, and rebalances its whole group. A cancelled runner drops its batch
and does not poll again before its source has been stopped, which `run` sees to (`leaving`).

`handled` is a ghost: the records for which a handler returned, and the group it did so in.
Timeouts are outcomes the environment picks, times are not modelled; log lines are left out.
-/

open Lib

namespace Kafka

/-! ## Sources -/

/-- `InMemoryMessageSource`. -/
structure Source where
  topics : List Text
  groupId : Text
  topics_ne_nil : topics ≠ []
  groupId_ne_nil : groupId ≠ []
  started : Bool := false
  assignment : List Partition := []
  positions : Dict Partition ℕ := ∅

namespace Source

/-- `_starting_position`. -/
def startingPosition (group : Group) (partition : Partition) : ℕ :=
  (group.committed.get partition).getD 0

/-- `_apply_assignment`. -/
def applyAssignment (source : Source) (assignment : List Partition) (group : Group) : Source :=
  { source with
    assignment
    positions := Dict.ofKeys assignment (startingPosition group) }

/-- A source that `start` has marked. -/
def opened (source : Source) : Source := { source with started := true }

/-- A source that `stop` has cleared. -/
def closed (source : Source) : Source :=
  { source with started := false, assignment := [], positions := ∅ }

/-- A position; a partition that has none is not assigned. -/
def positionOf (positions : Dict Partition ℕ) (partition : Partition) : ℕ :=
  (positions.get partition).getD 0

/-- The loop of `_drain`: at most `limit` records, the partitions in order, and the positions
    after. -/
def drainFrom (broker : Broker) (positions : Dict Partition ℕ) (limit : ℕ) :
    List Partition → List ConsumedMessage × Dict Partition ℕ
  | [] => ([], positions)
  | partition :: rest =>
    if limit = 0 then ([], positions)
    else
      let position := positionOf positions partition
      let records := broker.read partition position limit
      let positions := if records.isEmpty then positions
        else positions.set partition (position + records.length)
      let (messages, positions) := drainFrom broker positions (limit - records.length) rest
      (records.mapIdx (fun i record => record.consumed partition (position + i)) ++ messages,
        positions)

/-- `_drain`. -/
def drain (source : Source) (broker : Broker) (maxRecords : ℕ) : List ConsumedMessage × Source :=
  let (messages, positions) := drainFrom broker source.positions maxRecords source.assignment
  (messages, { source with positions })

/-- `seek`. -/
def seek (source : Source) (partition : Partition) (offset : ℤ) : Except Exc Source :=
  if partition ∉ source.assignment then
    .error (ExcClass.consumerError.error
      (lit "Cannot seek " ++ partition.str ++ lit ": not assigned."))
  else if offset < 0 then
    .error (ExcClass.valueError.error
      (lit "Offset for " ++ partition.str ++ lit " cannot be negative."))
  else .ok { source with positions := source.positions.set partition offset.toNat }

/-- The loop of `commit`: what is committed after it, also if it raises half way. -/
def commitFrom (assignment : List Partition) (committed : Dict Partition ℕ) :
    List (Partition × ℤ) → Dict Partition ℕ × Except Exc Unit
  | [] => (committed, .ok ())
  | (partition, offset) :: rest =>
    if partition ∉ assignment then
      (committed, .error (ExcClass.consumerError.error
        (lit "Cannot commit " ++ partition.str ++ lit ": not assigned to this member.")))
    else if offset < 0 then
      (committed, .error (ExcClass.valueError.error
        (lit "Offset for " ++ partition.str ++ lit " cannot be negative.")))
    else commitFrom assignment (committed.set partition offset.toNat) rest

/-- `commit`: the broker after it, and what it raises. -/
def commit (source : Source) (broker : Broker) (offsets : List (Partition × ℤ)) :
    Broker × Except Exc Unit :=
  if !source.started then
    (broker, .error (ExcClass.lifecycleError.error
      (lit "Source is not started. Call start() first.")))
  else if offsets.isEmpty then (broker, .ok ())
  else
    let group := broker.group source.groupId
    let (committed, result) := commitFrom source.assignment group.committed offsets
    (broker.setGroup source.groupId { group with committed }, result)

end Source

/-! ## Commits that raise half way -/

/-- An entry that `commit` does not refuse. -/
def Source.takes (source : Source) (entry : Partition × ℤ) : Bool :=
  entry.1 ∈ source.assignment ∧ 0 ≤ entry.2

/-- The entries before the first one that `commit` refuses. -/
def Source.taken (source : Source) (offsets : Dict Partition ℤ) : Dict Partition ℤ where
  items := offsets.items.takeWhile source.takes
  nodup := offsets.nodup.sublist ((List.takeWhile_sublist _).map _)

/-- A commit that raises changes nothing, and one that returns records what it was given. -/
structure AllOrNothing (source : Source) (broker : Broker) (offsets : Dict Partition ℤ) :
    Prop where
  raised : ∀ exc, (source.commit broker offsets.items).2 = .error exc → ∀ p,
    (source.commit broker offsets.items).1.committed source.groupId p =
      broker.committed source.groupId p
  returned : (source.commit broker offsets.items).2 = .ok () → ∀ p,
    ((source.commit broker offsets.items).1.committed source.groupId p).map Int.ofNat =
      (offsets.get p).or ((broker.committed source.groupId p).map Int.ofNat)

section
open List
variable {source : Source} {broker : Broker}

theorem group_setGroup (broker : Broker) (id id' : Text) (group : Group) :
    (broker.setGroup id group).group id' = if id' = id then group else broker.group id' := by
  simp only [Broker.group, Broker.setGroup, Dict.get_set]
  split <;> rfl

theorem commitFrom_spec (source : Source) {offsets : List (Partition × ℤ)}
    (committed : Dict Partition ℕ) (hkeys : (offsets.map Prod.fst).Nodup) :
    let out := Source.commitFrom source.assignment committed offsets
    (∀ p, out.1.get p =
      (((offsets.takeWhile source.takes).lookup p).map Int.toNat).or (committed.get p)) ∧
    (out.2 = .ok () ↔ ∀ entry ∈ offsets, source.takes entry) := by
  induction offsets generalizing committed with
  | nil => simp [Source.commitFrom]
  | cons entry rest ih =>
    obtain ⟨q, offset⟩ := entry
    obtain ⟨hq, hrest⟩ := nodup_cons.mp hkeys
    rw [Source.commitFrom]
    split
    · simp [Source.takes, *]
    split
    · simp [Source.takes, *]
    have htakes : source.takes (q, offset) := by simp_all [Source.takes]
    obtain ⟨hget, hok⟩ := ih (committed.set q offset.toNat) hrest
    refine ⟨fun p => ?_, by simp [hok, htakes]⟩
    rw [hget, Dict.get_set, takeWhile_cons_of_pos htakes, lookup_cons]
    by_cases hp : p = q
    · have hnone : (rest.takeWhile source.takes).lookup p = none := by
        refine lookup_eq_none_iff.mpr fun entry hentry => bne_iff_ne.mpr fun he => hq ?_
        exact mem_map.mpr ⟨entry, takeWhile_subset _ hentry, he.symm.trans hp⟩
      simp [hp ▸ hnone, hp]
    · simp [hp, beq_eq_false_iff_ne.mpr hp]

/-- A commit by a started source records the entries before the first one it refuses. -/
theorem commit_spec (broker : Broker) (offsets : Dict Partition ℤ)
    (hstarted : source.started = true) :
    (∀ p, (source.commit broker offsets.items).1.committed source.groupId p =
      (((source.taken offsets).get p).map Int.toNat).or (broker.committed source.groupId p)) ∧
    ((source.commit broker offsets.items).2 = .ok () ↔
      ∀ entry ∈ offsets.items, source.takes entry) := by
  obtain ⟨hget, hok⟩ := commitFrom_spec source
    (broker.group source.groupId).committed offsets.nodup
  simp only [Source.commit, hstarted, Bool.not_true, Bool.false_eq_true, if_false]
  split
  · simp_all [Source.taken, Dict.get]
  · refine ⟨fun p => ?_, hok⟩
    rw [Broker.committed, group_setGroup, if_pos rfl]
    exact hget p

/-- A commit is all or nothing unless an entry that is written stands before one that is refused,
    because its partition is not owned or its offset is negative. -/
theorem allOrNothing_iff (source : Source) (broker : Broker) (offsets : Dict Partition ℤ) :
    AllOrNothing source broker offsets ↔
      source.started = false ∨ (∀ entry ∈ offsets.items, source.takes entry) ∨
      ∀ p n, (source.taken offsets).get p = some n →
        broker.committed source.groupId p = some n.toNat := by
  cases hstarted : source.started with
  | false =>
    obtain ⟨exc, hcommit⟩ : ∃ exc, source.commit broker offsets.items = (broker, .error exc) := by
      simp [Source.commit, hstarted]
    exact iff_of_true (by constructor <;> simp [hcommit]) (.inl rfl)
  | true =>
    obtain ⟨hget, hok⟩ := commit_spec broker offsets hstarted
    by_cases hall : ∀ entry ∈ offsets.items, source.takes entry
    · refine iff_of_true ⟨fun exc hexc => ?_, fun _ p => ?_⟩ (.inr (.inl hall))
      · rw [hok.mpr hall] at hexc
        cases hexc
      have htaken : (source.taken offsets).get p = offsets.get p :=
        congrArg (lookup p) (takeWhile_eq_self_iff.mpr hall)
      rw [hget, htaken]
      cases hn : offsets.get p with
      | none => rfl
      | some n =>
        have hpos := hall _ (Dict.mem_items.mpr hn)
        simp_all [Source.takes]
    -- it raises, and has written what stands before the entry it refused
    · have hne := mt hok.mp hall
      refine ⟨fun h => .inr (.inr fun p n hn => ?_), fun h => ⟨fun _ _ p => ?_, hne.elim⟩⟩
      · cases hresult : (source.commit broker offsets.items).2 with
        | ok => exact absurd hresult hne
        | error exc =>
          have hsame := h.raised exc hresult p
          simpa [hget, hn] using hsame.symm
      · rw [hget]
        have h := (h.resolve_left Bool.noConfusion).resolve_left hall p
        cases hn : (source.taken offsets).get p with
        | none => rfl
        | some n => simp [h n hn]

/-- The member owns the first partition and not the second, which a rebalance has taken away. -/
theorem taken_away_half_committed :
    let source : Source := ⟨[lit "t"], lit "g", nofun, nofun, true, [⟨lit "t", 0⟩], ∅⟩
    ¬ AllOrNothing source {} ⟨[(⟨lit "t", 0⟩, 1), (⟨lit "t", 1⟩, 1)], by decide⟩ := by
  intro source h
  exact absurd (h.raised _ rfl ⟨lit "t", 0⟩) (by decide)

end

/-! ## Runners -/

/-- `ConsumerConfig`, without the timeouts. -/
structure ConsumerConfig where
  maxRecords : ℕ := 100
  retryBaseDelay : ℚ := 1
  retryMaxDelay : ℚ := 60
  jitter : Bool := true
  one_le_maxRecords : 1 ≤ maxRecords := by decide
  retryBaseDelay_pos : 0 < retryBaseDelay := by decide
  retryBaseDelay_le : retryBaseDelay ≤ retryMaxDelay := by decide

/-- `ConsumerConfig()`. -/
def ConsumerConfig.defaults : ConsumerConfig := {}

/-- What a handler did with a record. -/
inductive Outcome
  | returned
  | raised
  | timedOut
  | retryAfter (delay : ℚ)
  deriving DecidableEq

structure ConsumeResult where
  polled : ℕ
  delivered : ℕ
  failed : ℕ
  retryDelay : ℚ := 0
  deferred : ℕ := 0
  deferDelay : ℚ := 0

/-- The variables of `consume_once`; `rest` are the partitions not begun. -/
structure Batch where
  polled : ℕ
  rest : List (Partition × List ConsumedMessage)
  commits : Dict Partition ℕ := ∅
  delivered : ℕ := 0
  failed : ℕ := 0
  deferred : ℕ := 0
  retryDelay : ℚ := 0
  deferDelay : ℚ := 0
  deriving DecidableEq

def Batch.result (batch : Batch) : ConsumeResult where
  polled := batch.polled
  delivered := batch.delivered
  failed := batch.failed
  retryDelay := batch.retryDelay
  deferred := batch.deferred
  deferDelay := batch.deferDelay

/-- Where a runner stands. `behind` are the records after the one at hand in its partition. -/
inductive Phase
  | idle
  | handling (batch : Batch) (record : ConsumedMessage) (behind : List ConsumedMessage)
  | seeking (batch : Batch) (record : ConsumedMessage) (behind : List ConsumedMessage)
  | committing (batch : Batch)
  | leaving
  deriving DecidableEq

structure Runner where
  config : ConsumerConfig := {}
  source : Source
  phase : Phase := .idle
  failures : Dict Partition ℕ := ∅
  result : Option ConsumeResult := none

/-- Go on with the next partition of a batch, or to its commit. -/
def Batch.nextPartition (batch : Batch) : List (Partition × List ConsumedMessage) → Phase
  | [] => .committing { batch with rest := [] }
  | (_, []) :: rest => batch.nextPartition rest
  | (_, record :: behind) :: rest => .handling { batch with rest } record behind

/-- Go on in the same partition. -/
def Batch.nextRecord (batch : Batch) : List ConsumedMessage → Phase
  | [] => batch.nextPartition batch.rest
  | record :: behind => .handling batch record behind

/-- `backoff_delay` with the runner's configuration. -/
def backoffDelay (attempt : ℕ) (config : ConsumerConfig) (draw : ℚ) : ℚ :=
  Decorators.backoffDelay attempt config.retryBaseDelay config.retryMaxDelay config.jitter draw

/-- The batch of a poll, grouped by partition. -/
def Batch.begin (messages : List ConsumedMessage) : Phase :=
  let grouped := Dict.collect ConsumedMessage.partition messages
  Batch.nextPartition { polled := messages.length, rest := [] } grouped.items

namespace Runner

/-- `poll`, by a runner that has nothing at hand. One that began before its source was stopped
    finds nothing. -/
def poll (runner : Runner) (broker : Broker) : Runner :=
  let (messages, source) := runner.source.drain broker runner.config.maxRecords
  if messages.isEmpty then
    { runner with source, result := some { polled := 0, delivered := 0, failed := 0 } }
  else { runner with source, phase := Batch.begin messages }

/-- `_handle` and what follows it up to the seek. -/
def settle (runner : Runner) (batch : Batch) (record : ConsumedMessage)
    (behind : List ConsumedMessage) (outcome : Outcome) (draw : ℚ) : Runner :=
  match outcome with
  | .returned =>
    { runner with
      phase := Batch.nextRecord { batch with
        delivered := batch.delivered + 1
        commits := batch.commits.set record.partition record.nextOffset } behind
      failures := runner.failures.erase record.partition }
  | .retryAfter delay =>
    { runner with
      phase := .seeking { batch with
        deferred := batch.deferred + 1
        deferDelay := if batch.deferDelay = 0 then delay else min batch.deferDelay delay }
        record behind }
  | .raised | .timedOut =>
    -- `_register_failure`
    let attempts := (runner.failures.get record.partition).getD 0 + 1
    { runner with
      phase := .seeking { batch with
        failed := batch.failed + 1
        retryDelay := max batch.retryDelay (backoffDelay attempts runner.config draw) }
        record behind
      failures := runner.failures.set record.partition attempts }

/-- `_seek_back`, which swallows a `ConsumerError`, and on to the next partition. -/
def seekBack (runner : Runner) (batch : Batch) (record : ConsumedMessage) : Runner :=
  let source := match runner.source.seek record.partition record.offset with
    | .ok source => source
    | .error _ => runner.source
  { runner with source, phase := batch.nextPartition batch.rest }

end Runner

/-! ## The system -/

/-- A handler returned for this record, in this group. -/
structure Delivery where
  group : Text
  partition : Partition
  offset : ℕ

structure Sys where
  broker : Broker := {}
  publishers : List Bool := []
  runners : List Runner := []
  handled : List Delivery := []

/-- `_rebalance`, from the member at place `index` on. It ends early if a topic cannot be
    made. -/
def rebalanceFrom (group : Group) (index : ℕ) :
    List ℕ → Broker → List Runner → Broker × List Runner
  | [], broker, runners => (broker, runners)
  | member :: members, broker, runners =>
    match runners[member]? with
    | none => (broker, runners)
    | some runner =>
      match broker.partitionsFor runner.source.topics with
      | none => (broker, runners)
      | some (partitions, broker) =>
        let assigned := (partitions.zipIdx.filter fun entry =>
          entry.2 % group.members.length = index).map Prod.fst
        let source := runner.source.applyAssignment assigned group
        rebalanceFrom group (index + 1) members broker (runners.set member { runner with source })

namespace Sys

def rebalance (s : Sys) (groupId : Text) : Sys :=
  let group := s.broker.group groupId
  let (broker, runners) := rebalanceFrom group 0 group.members s.broker s.runners
  { s with broker, runners }

/-- `start` of a source that is not started: it joins, if it is no member yet. -/
def join (s : Sys) (r : ℕ) (runner : Runner) : Sys :=
  let id := runner.source.groupId
  let group := s.broker.group id
  let members := if r ∈ group.members then group.members else group.members ++ [r]
  let s := { s with
    broker := s.broker.setGroup id { group with members }
    runners := s.runners.set r { runner with source := runner.source.opened } }
  s.rebalance id

/-- `stop` of a source that is started. -/
def leave (s : Sys) (r : ℕ) (runner : Runner) : Sys :=
  let id := runner.source.groupId
  let group := s.broker.group id
  let s := { s with
    broker := s.broker.setGroup id { group with members := group.members.erase r }
    runners := s.runners.set r { runner with source := runner.source.closed } }
  s.rebalance id

end Sys

inductive Action
  | createTopic (name : Text) (partitions : Option ℕ)
  | newPublisher
  | startPublisher (p : ℕ)
  | stopPublisher (p : ℕ)
  | publish (p : ℕ) (out : Outgoing)
  | newRunner (config : ConsumerConfig) (topics : List Text) (groupId : Text)
  | start (r : ℕ)
  | stop (r : ℕ)
  | poll (r : ℕ)
  | handle (r : ℕ) (outcome : Outcome) (draw : ℚ)
  | seek (r : ℕ)
  | commit (r : ℕ)
  | cancel (r : ℕ)

/-- One step; none if the action is not one that can come next, or raises and changes nothing. -/
def step (s : Sys) : Action → Option Sys
  | .createTopic name partitions =>
    (s.broker.createTopic name partitions).map fun broker => { s with broker }
  | .newPublisher => some { s with publishers := s.publishers ++ [false] }
  | .startPublisher p => some { s with publishers := s.publishers.set p true }
  | .stopPublisher p => some { s with publishers := s.publishers.set p false }
  | .publish p out =>
    match s.publishers[p]? with
    | some true => some { s with broker := (s.broker.publish out).1 }
    | _ => none
  | .newRunner config topics groupId =>
    if h : topics ≠ [] ∧ groupId ≠ [] then
      some { s with runners := s.runners ++
        [{ config, source := { topics, groupId, topics_ne_nil := h.1, groupId_ne_nil := h.2 } }] }
    else none
  | .start r =>
    match s.runners[r]? with
    | none => none
    | some runner => if runner.source.started then some s else some (s.join r runner)
  | .stop r =>
    match s.runners[r]? with
    | none => none
    | some runner =>
      let runner := if runner.phase = .leaving then { runner with phase := .idle } else runner
      if runner.source.started then some (s.leave r runner)
      else some { s with runners := s.runners.set r runner }
  | .poll r =>
    match s.runners[r]? with
    | some runner =>
      match runner.phase with
      | .idle => some { s with runners := s.runners.set r (runner.poll s.broker) }
      | _ => none
    | none => none
  | .handle r outcome draw =>
    match s.runners[r]? with
    | some runner =>
      match runner.phase with
      | .handling batch record behind =>
        let delivery : Delivery := ⟨runner.source.groupId, record.partition, record.offset⟩
        some { s with
          runners := s.runners.set r (runner.settle batch record behind outcome draw)
          handled := if outcome = .returned then s.handled ++ [delivery] else s.handled }
      | _ => none
    | none => none
  | .seek r =>
    match s.runners[r]? with
    | some runner =>
      match runner.phase with
      | .seeking batch record _ =>
        some { s with runners := s.runners.set r (runner.seekBack batch record) }
      | _ => none
    | none => none
  | .commit r =>
    match s.runners[r]? with
    | some runner =>
      match runner.phase with
      | .committing batch =>
        -- `_commit` swallows a `ConsumerError`; anything else ends `consume_once`
        let offsets := batch.commits.items.map fun (partition, offset) => (partition, (offset : ℤ))
        let (broker, result) := if offsets.isEmpty then (s.broker, .ok ())
          else runner.source.commit s.broker offsets
        let swallowed := match result with
          | .ok () => true
          | .error exc => exc.isInstance .consumerError
        some { s with
          broker
          runners := s.runners.set r { runner with
            phase := .idle
            result := if swallowed then some batch.result else runner.result } }
      | _ => none
    | none => none
  | .cancel r =>
    match s.runners[r]? with
    | none => none
    | some runner => some { s with runners := s.runners.set r { runner with phase := .leaving } }

/-! ## What a step can do -/

/-- `stop`: a cancelled runner has seen to its source and may be run again. -/
structure Rested (runner runner' : Runner) : Prop where
  source : runner'.source = runner.source
  phase : runner'.phase = runner.phase ∨ runner'.phase = .idle

theorem rested (runner : Runner) :
    Rested runner (if runner.phase = .leaving then { runner with phase := .idle } else runner) := by
  split
  · exact ⟨rfl, .inr rfl⟩
  · exact ⟨rfl, .inl rfl⟩

/-- The offsets that `_commit` hands to its source. -/
def Batch.commitOffsets (batch : Batch) : List (Partition × ℤ) :=
  batch.commits.items.map fun (partition, offset) => (partition, (offset : ℤ))

/-- Each way a step can go, with its guards. -/
inductive Move (s : Sys) : Action → Sys → Prop
  | createTopic {name : Text} {partitions : Option ℕ} {broker : Broker}
      (hbroker : s.broker.createTopic name partitions = some broker) :
      Move s (.createTopic name partitions) { s with broker }
  | publishers (a : Action) (publishers : List Bool) : Move s a { s with publishers }
  | publish (p : ℕ) (out : Outgoing) :
      Move s (.publish p out) { s with broker := (s.broker.publish out).1 }
  | newRunner (a : Action) (config : ConsumerConfig) (source : Source)
      (hassignment : source.assignment = []) (hpositions : source.positions = ∅) :
      Move s a { s with runners := s.runners ++ [{ config, source }] }
  | started (a : Action) : Move s a s
  | join {r : ℕ} {runner : Runner} (hrunner : s.runners[r]? = some runner)
      (hunstarted : runner.source.started = false) :
      Move s (.start r) (s.join r runner)
  | leave {r : ℕ} {runner runner' : Runner} (hrunner : s.runners[r]? = some runner)
      (hrested : Rested runner runner') :
      Move s (.stop r) (s.leave r runner')
  | rest {r : ℕ} {runner runner' : Runner} (hrunner : s.runners[r]? = some runner)
      (hrested : Rested runner runner')
      (hunstarted : runner.source.started = false) :
      Move s (.stop r) { s with runners := s.runners.set r runner' }
  | poll {r : ℕ} {runner : Runner} (hrunner : s.runners[r]? = some runner)
      (hidle : runner.phase = .idle) :
      Move s (.poll r) { s with runners := s.runners.set r (runner.poll s.broker) }
  | handle {r : ℕ} {runner : Runner} {batch : Batch} {record : ConsumedMessage}
      {behind : List ConsumedMessage}
      (hrunner : s.runners[r]? = some runner)
      (hphase : runner.phase = .handling batch record behind)
      (outcome : Outcome) (draw : ℚ) :
      Move s (.handle r outcome draw) { s with
        runners := s.runners.set r (runner.settle batch record behind outcome draw)
        handled := if outcome = .returned then
          s.handled ++ [⟨runner.source.groupId, record.partition, record.offset⟩] else s.handled }
  | seek {r : ℕ} {runner : Runner} {batch : Batch} {record : ConsumedMessage}
      {behind : List ConsumedMessage}
      (hrunner : s.runners[r]? = some runner)
      (hphase : runner.phase = .seeking batch record behind) :
      Move s (.seek r) { s with runners := s.runners.set r (runner.seekBack batch record) }
  | commit {r : ℕ} {runner : Runner} {batch : Batch} {broker : Broker}
      (hrunner : s.runners[r]? = some runner)
      (hphase : runner.phase = .committing batch)
      (hbroker : broker = s.broker ∨ broker = (runner.source.commit s.broker batch.commitOffsets).1)
      (result : Option ConsumeResult) :
      Move s (.commit r) { s with
        broker, runners := s.runners.set r { runner with phase := .idle, result } }
  | cancel {r : ℕ} {runner : Runner} (hrunner : s.runners[r]? = some runner) :
      Move s (.cancel r) { s with runners := s.runners.set r { runner with phase := .leaving } }

theorem step_move {s s' : Sys} {a : Action} (h : step s a = some s') : Move s a s' := by
  cases a with simp only [step] at h
  | createTopic =>
    obtain ⟨broker, hbroker, rfl⟩ := Option.map_eq_some_iff.mp h
    exact .createTopic hbroker
  | newPublisher | startPublisher | stopPublisher =>
    cases h
    exact .publishers _ _
  | publish p out =>
    split at h <;> cases h
    exact .publish p out
  | newRunner =>
    split at h <;> cases h
    exact .newRunner _ _ _ rfl rfl
  | start =>
    split at h <;> [cases h; skip]
    rename_i runner hrunner
    split at h <;> cases h
    · exact .started _
    · exact .join hrunner (Bool.not_eq_true _ ▸ ‹_›)
  | stop =>
    split at h <;> [cases h; skip]
    rename_i runner hrunner
    have hrested := rested runner
    generalize (if runner.phase = .leaving then { runner with phase := .idle } else runner) =
      runner' at h hrested
    split at h <;> cases h
    · exact .leave hrunner hrested
    · rename_i hunstarted
      rw [hrested.source, Bool.not_eq_true] at hunstarted
      exact .rest hrunner hrested hunstarted
  | poll =>
    split at h <;> [split at h; skip] <;> cases h
    exact .poll ‹_› ‹_›
  | handle r outcome draw =>
    split at h <;> [split at h; skip] <;> cases h
    exact .handle ‹_› ‹_› outcome draw
  | seek =>
    split at h <;> [split at h; skip] <;> cases h
    exact .seek ‹_› ‹_›
  | commit =>
    split at h <;> [split at h; skip] <;> cases h
    refine .commit ‹_› ‹_› ?_ _
    split
    · exact .inl rfl
    · exact .inr rfl
  | cancel =>
    split at h <;> cases h
    exact .cancel ‹_›

end Kafka
