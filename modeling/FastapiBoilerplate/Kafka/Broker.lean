import Mathlib.Data.List.Sort
import Mathlib.Algebra.Group.Nat.Defs
import Mathlib.Data.List.Lex
import Mathlib.Order.Fin.Basic
import FastapiBoilerplate.Kafka.Base
import FastapiBoilerplate.Lib.Dict
import FastapiBoilerplate.Lib.Except

/-!
# The in-process broker

`InMemoryBroker` of `src/kafka/memory.py`: topics as lists of append-only logs, groups with their
committed offsets and members. A record's offset is its place in its log. Consumers are known by
a number, what they are is `Kafka.Runner`'s.

A topic that does not exist is made by whoever asks for it, with `defaultPartitions` logs; that
fails if the broker was given a default of none.
-/

open Lib List Option

namespace Kafka

/-! ## Topics -/

/-- `_Record`, without the offset. -/
structure Record where
  key : Option Text
  value : Option Bytes
  headers : Headers

def Record.consumed (record : Record) (partition : Partition) (offset : ℕ) : ConsumedMessage where
  partition := partition
  offset := offset
  key := record.key
  value := record.value
  headers := record.headers

def Outgoing.toRecord (out : Outgoing) : Record := ⟨out.key, out.value, out.headers⟩

/-- `_Topic`: its logs, and the round-robin cursor for null keys. -/
structure Topic where
  logs : List (List Record)
  cursor : ℕ
  cursor_lt : cursor < logs.length

/-- `_fnv1a`, of the encoded text. -/
def fnv1a (bytes : Bytes) : ℕ :=
  bytes.foldl (fun result byte => (result ^^^ byte.val) * 0x01000193 % 2 ^ 32) 0x811C9DC5

namespace Topic

/-- The constructor; none is `ValueError`. -/
def make (partitions : ℕ) : Option Topic :=
  if h : partitions < 1 then none
  else some ⟨List.replicate partitions [], 0, by rw [length_replicate]; omega⟩

/-- `partitions()`. -/
def partitions (topic : Topic) (name : Text) : List Partition :=
  (List.range topic.logs.length).map fun number => ⟨name, number⟩

/-- Where a record with this key goes; a null key moves the cursor. -/
def partitionFor (topic : Topic) : Option Text → Except Exc (ℕ × Topic)
  | none =>
    .ok (topic.cursor, { topic with
      cursor := (topic.cursor + 1) % topic.logs.length,
      cursor_lt := Nat.mod_lt _ (Nat.zero_lt_of_lt topic.cursor_lt) })
  | some key => do
    let bytes ← encode key
    return (fnv1a bytes % topic.logs.length, topic)

def log (topic : Topic) (number : ℕ) : List Record := topic.logs.getD number []

/-- The topic with a record added to a log. -/
def push (topic : Topic) (number : ℕ) (record : Record) : Topic where
  logs := topic.logs.set number (topic.log number ++ [record])
  cursor := topic.cursor
  cursor_lt := by
    rw [length_set]
    exact topic.cursor_lt

/-- `append`: the log, the offset and the topic after. -/
def append (topic : Topic) (record : Record) : Except Exc (ℕ × ℕ × Topic) := do
  let (number, topic) ← topic.partitionFor record.key
  return (number, (topic.log number).length, topic.push number record)

def read (topic : Topic) (number position limit : ℕ) : List Record :=
  ((topic.log number).drop position).take limit

end Topic

/-! ## The broker -/

/-- `_Group`. -/
structure Group where
  committed : Dict Partition ℕ := ∅
  members : List ℕ := []

structure Broker where
  defaultPartitions : ℕ := 2
  topics : Dict Text Topic := ∅
  groups : Dict Text Group := ∅

namespace Broker

/-- `create_topic`; none is `ValueError`. -/
def createTopic (broker : Broker) (name : Text) (partitions : Option ℕ) : Option Broker :=
  if (broker.topics.get name).isSome then none
  else
    (Topic.make (partitions.getD broker.defaultPartitions)).map fun topic =>
      { broker with topics := broker.topics.set name topic }

/-- `topic`, made if it is not there; none is `ValueError`. -/
def topic (broker : Broker) (name : Text) : Option (Topic × Broker) :=
  match broker.topics.get name with
  | some topic => some (topic, broker)
  | none =>
    (Topic.make broker.defaultPartitions).map fun topic =>
      (topic, { broker with topics := broker.topics.set name topic })

/-- The partitions of these topics, in this order. -/
def partitionsOf (broker : Broker) : List Text → Option (List Partition × Broker)
  | [] => some ([], broker)
  | name :: names => do
    let (topic, broker) ← broker.topic name
    let (partitions, broker) ← broker.partitionsOf names
    return (topic.partitions name ++ partitions, broker)

/-- `partitions_for`. -/
def partitionsFor (broker : Broker) (topics : List Text) : Option (List Partition × Broker) :=
  broker.partitionsOf (topics.insertionSort (· ≤ ·))

def group (broker : Broker) (id : Text) : Group := (broker.groups.get id).getD {}

def setGroup (broker : Broker) (id : Text) (group : Group) : Broker :=
  { broker with groups := broker.groups.set id group }

/-- `committed`. -/
def committed (broker : Broker) (id : Text) (partition : Partition) : Option ℕ :=
  (broker.group id).committed.get partition

/-- `publish`, of a publisher that is started. A key that cannot be encoded is found out about
    after the topic has been made. -/
def publish (broker : Broker) (out : Outgoing) : Broker × Except Exc (Partition × ℕ) :=
  match validateRecord out.topic out.key out.value with
  | .error exc => (broker, .error exc)
  | .ok () =>
    match broker.topic out.topic with
    | none => (broker, .error (ExcClass.valueError.error
        (lit "A topic needs at least one partition.")))
    | some (topic, broker) =>
      match topic.append out.toRecord with
      | .error exc => (broker, .error exc)
      | .ok (number, offset, topic) =>
        ({ broker with topics := broker.topics.set out.topic topic },
          .ok (⟨out.topic, number⟩, offset))

/-- At most `limit` records of a partition, from a position on. -/
def read (broker : Broker) (partition : Partition) (position limit : ℕ) : List Record :=
  match broker.topics.get partition.topic with
  | some topic => topic.read partition.number position limit
  | none => []

/-- The record at a place. -/
def recordAt (broker : Broker) (partition : Partition) (offset : ℕ) : Option Record :=
  (broker.topics.get partition.topic).bind fun topic => (topic.log partition.number)[offset]?

end Broker

/-! ## Records stay where they are -/

variable {topic topic' : Topic} {number offset i : ℕ} {a b c : Broker}

theorem Topic.partitionFor_eq_ok {key : Option Text}
    (h : topic.partitionFor key = .ok (number, topic')) :
    number < topic.logs.length ∧ topic'.logs = topic.logs := by
  have hpos := Nat.zero_lt_of_lt topic.cursor_lt
  cases key with
  | none =>
    cases h
    exact ⟨topic.cursor_lt, rfl⟩
  | some =>
    obtain ⟨bytes, -, h⟩ := bind_eq_ok.mp h
    cases h
    exact ⟨Nat.mod_lt _ hpos, rfl⟩

/-- What an append does: the record is at the end of one log, all else is as it was. -/
theorem Topic.append_eq_ok {record : Record}
    (h : topic.append record = .ok (number, offset, topic')) :
    offset = (topic.log number).length ∧ topic'.log number = topic.log number ++ [record] ∧
      ∀ n, n ≠ number → topic'.log n = topic.log n := by
  obtain ⟨⟨place, moved⟩, hplace, h⟩ := bind_eq_ok.mp h
  cases h
  obtain ⟨hlt, hlogs⟩ := partitionFor_eq_ok hplace
  rw [← hlogs] at hlt
  have hlog : ∀ n, moved.log n = topic.log n := by
    intro n
    rw [Topic.log, hlogs, Topic.log]
  refine ⟨by rw [hlog], ?_, ?_⟩
  · rw [← hlog]
    simp [Topic.push, Topic.log, List.getD, getElem?_set_self hlt]
  · intro n hn
    rw [← hlog n]
    simp [Topic.push, Topic.log, List.getD, getElem?_set_ne (Ne.symm hn)]

namespace Broker

/-- Whatever is in the logs of `broker` is in those of `broker'`, at the same place. -/
def Extends (broker broker' : Broker) : Prop :=
  ∀ (partition : Partition) (offset : ℕ) (record : Record),
    broker.recordAt partition offset = some record →
      broker'.recordAt partition offset = some record

theorem Extends.refl (broker : Broker) : broker.Extends broker := fun _ _ _ h => h

theorem Extends.trans (hab : a.Extends b) (hbc : b.Extends c) : a.Extends c :=
  fun p k record h => hbc p k record (hab p k record h)

theorem Extends.of_topics (h : b.topics = a.topics) : a.Extends b := by
  intro p k record hrecord
  rwa [recordAt, h]

variable {broker broker' : Broker} {name : Text} {topic : Topic} {partition : Partition}
  {record : Record} {out : Outgoing}

theorem Extends.set
    (h : ∀ old : Topic, broker.topics.get name = some old → ∀ (n k : ℕ) (record : Record),
      (old.log n)[k]? = some record → (topic.log n)[k]? = some record) :
    broker.Extends { broker with topics := broker.topics.set name topic } := by
  intro p k record hrecord
  obtain ⟨old, hold, hrecord⟩ := bind_eq_some_iff.mp hrecord
  simp only [recordAt, Dict.get_set]
  split
  · exact h old (‹p.topic = name› ▸ hold) p.number k record hrecord
  · rw [hold]
    exact hrecord

/-- The partitions of a topic; one that does not exist has none. -/
def width (broker : Broker) (name : Text) : ℕ :=
  ((broker.topics.get name).map fun topic => topic.logs.length).getD 0

/-- Topics that are there keep their partitions. -/
structure Keeps (broker broker' : Broker) : Prop where
  defaults : broker'.defaultPartitions = broker.defaultPartitions
  width : ∀ name, 0 < broker.width name → broker'.width name = broker.width name

theorem Keeps.refl (broker : Broker) : broker.Keeps broker := ⟨rfl, fun _ _ => rfl⟩

theorem Keeps.trans (hab : a.Keeps b) (hbc : b.Keeps c) : a.Keeps c := by
  refine ⟨hbc.defaults.trans hab.defaults, ?_⟩
  intro name hpos
  have hb := hab.width name hpos
  rw [hbc.width name (hb.symm ▸ hpos), hb]

theorem Keeps.set
    (h : ∀ old, broker.topics.get name = some old → topic.logs.length = old.logs.length) :
    broker.Keeps { broker with topics := broker.topics.set name topic } := by
  refine ⟨rfl, ?_⟩
  intro name' hpos
  simp only [Broker.width, Dict.get_set] at hpos ⊢
  split
  · obtain rfl := ‹name' = name›
    cases hold : broker.topics.get name' with
    | none =>
      rw [hold] at hpos
      cases hpos
    | some old => exact h old hold
  · rfl

/-- The logs are continued, topics are made, and the groups stay. -/
structure Grown (broker broker' : Broker) : Prop where
  groups : broker'.groups = broker.groups
  logs : broker.Extends broker'
  keeps : broker.Keeps broker'

theorem Grown.refl (broker : Broker) : Grown broker broker := ⟨rfl, .refl _, .refl _⟩

theorem Grown.trans (hab : Grown a b) (hbc : Grown b c) : Grown a c :=
  ⟨hbc.groups.trans hab.groups, hab.logs.trans hbc.logs, hab.keeps.trans hbc.keeps⟩

theorem Grown.set_new (hnone : broker.topics.get name = none) (topic : Topic) :
    Grown broker { broker with topics := broker.topics.set name topic } := by
  refine ⟨rfl, .set ?_, .set ?_⟩
  · rw [hnone]
    nofun
  · rw [hnone]
    nofun

theorem grown_createTopic {partitions : Option ℕ}
    (h : broker.createTopic name partitions = some broker') : Grown broker broker' := by
  unfold createTopic at h
  split at h
  · cases h
  rename_i hnone
  obtain ⟨topic, -, rfl⟩ := map_eq_some_iff.mp h
  exact .set_new (by simpa using hnone) topic

theorem grown_topic (h : broker.topic name = some (topic, broker')) :
    Grown broker broker' ∧ broker'.topics.get name = some topic := by
  unfold Broker.topic at h
  split at h
  · rename_i hget
    cases h
    exact ⟨.refl _, hget⟩
  · rename_i hnone
    obtain ⟨made, -, h⟩ := map_eq_some_iff.mp h
    cases h
    exact ⟨.set_new hnone _, Dict.get_set_self _ _ _⟩

theorem grown_partitionsOf {names : List Text} {partitions : List Partition}
    (h : broker.partitionsOf names = some (partitions, broker')) : Grown broker broker' := by
  induction names generalizing broker partitions with
  | nil =>
    cases h
    exact .refl _
  | cons name names ih =>
    obtain ⟨⟨topic, broker₁⟩, htopic, h⟩ := bind_eq_some_iff.mp h
    obtain ⟨⟨rest, broker₂⟩, hrest, h⟩ := bind_eq_some_iff.mp h
    cases h
    exact (grown_topic htopic).1.trans (ih hrest)

theorem grown_publish (broker : Broker) (out : Outgoing) : Grown broker (broker.publish out).1 := by
  unfold publish
  split
  · exact .refl _
  split
  · exact .refl _
  rename_i topic broker₁ htopic
  obtain ⟨hgrown, hget⟩ := grown_topic htopic
  split
  · exact hgrown
  rename_i number offset topic' happend
  refine hgrown.trans ⟨rfl, .set ?_, .set ?_⟩
  · intro old hold n k record hrecord
    obtain rfl : topic = old := some.inj (hget.symm.trans hold)
    obtain ⟨-, hlog, hother⟩ := Topic.append_eq_ok happend
    by_cases hn : n = number
    · subst hn
      rw [hlog]
      exact (getElem?_append_left (List.getElem?_eq_some_iff.mp hrecord).1).trans hrecord
    · rwa [hother n hn]
  · intro old hold
    obtain rfl : topic = old := some.inj (hget.symm.trans hold)
    obtain ⟨⟨place, moved⟩, hplace, h⟩ := bind_eq_ok.mp happend
    cases h
    rw [Topic.push, length_set, (Topic.partitionFor_eq_ok hplace).2]

/-- A publish that lands puts the record where there was none. -/
theorem recordAt_of_publish (h : (broker.publish out).2 = .ok (partition, offset)) :
    partition.topic = out.topic ∧ broker.recordAt partition offset = none ∧
      (broker.publish out).1.recordAt partition offset = some out.toRecord := by
  revert h
  unfold publish
  split
  · intro h; cases h
  split
  · intro h; cases h
  rename_i topic broker₁ htopic
  obtain ⟨hgrown, hget⟩ := grown_topic htopic
  split
  · intro h; cases h
  rename_i number offset topic' happend
  intro h
  cases h
  obtain ⟨rfl, hlog, -⟩ := Topic.append_eq_ok happend
  refine ⟨rfl, ?_, ?_⟩
  · -- what was there before is in the log the topic had
    cases hold : broker.recordAt ⟨out.topic, number⟩ (topic.log number).length with
    | none => rfl
    | some =>
      have := hgrown.logs _ _ _ hold
      simp [recordAt, hget] at this
  · simp [recordAt, Dict.get_set_self, hlog]

theorem recordAt_topic (h : broker.topic name = some (topic, broker')) (partition : Partition)
    (offset : ℕ) : broker'.recordAt partition offset = broker.recordAt partition offset := by
  unfold Broker.topic at h
  split at h
  · cases h
    rfl
  rename_i hnone
  obtain ⟨made, hmade, h⟩ := map_eq_some_iff.mp h
  cases h
  simp only [recordAt, Dict.get_set]
  split
  · next hname =>
    unfold Topic.make at hmade
    split at hmade
    · cases hmade
    cases hmade
    rw [hname, hnone]
    simp [Topic.log, List.getD, getElem?_replicate]
    split <;> simp
  · rfl

/-- All that a publish adds is the record that landed. -/
theorem recordAt_publish (h : (broker.publish out).1.recordAt partition offset = some record) :
    broker.recordAt partition offset = some record ∨
      (broker.publish out).2 = .ok (partition, offset) ∧ record = out.toRecord := by
  revert h
  unfold publish
  split
  · exact .inl
  split
  · exact .inl
  rename_i topic broker₁ htopic
  have hsame := recordAt_topic htopic partition offset
  split
  · intro h
    exact .inl (hsame ▸ h)
  rename_i number length topic' happend
  intro h
  obtain ⟨rfl, hlog, hother⟩ := Topic.append_eq_ok happend
  obtain ⟨-, hget⟩ := grown_topic htopic
  rw [← hsame]
  simp only [recordAt, Dict.get_set] at h ⊢
  by_cases hname : partition.topic = out.topic
  · rw [if_pos hname] at h
    rw [hname, hget]
    by_cases hnumber : partition.number = number
    · rw [bind_some, hnumber, hlog] at h
      rw [bind_some, hnumber]
      by_cases hlt : offset < (topic.log number).length
      · rw [getElem?_append_left hlt] at h
        exact .inl h
      · obtain ⟨hlength, h⟩ := List.getElem?_eq_some_iff.mp h
        rw [length_append, length_singleton] at hlength
        obtain rfl : offset = (topic.log number).length := by omega
        refine .inr ⟨?_, by simpa using h.symm⟩
        rw [← hname, ← hnumber]
    · rw [bind_some, hother _ hnumber] at h
      exact .inl h
  · rw [if_neg hname] at h
    exact .inl h

theorem lt_of_recordAt {j : ℕ} (hi : broker.recordAt partition i = some record)
    (hj : broker.recordAt partition j = none) : i < j := by
  obtain ⟨topic, htopic, hi⟩ := bind_eq_some_iff.mp hi
  rw [recordAt, htopic, bind_some, List.getElem?_eq_none_iff] at hj
  exact Nat.lt_of_lt_of_le (List.getElem?_eq_some_iff.mp hi).1 hj

/-- A read from a position answers the records at the places from there on. -/
theorem recordAt_of_read {position limit : ℕ}
    (h : (broker.read partition position limit)[i]? = some record) :
    broker.recordAt partition (position + i) = some record := by
  unfold read at h
  split at h
  · rename_i topic hget
    rw [recordAt, hget]
    rw [Topic.read, getElem?_take] at h
    split at h
    · rwa [getElem?_drop] at h
    · cases h
  · cases h

end Broker

end Kafka
