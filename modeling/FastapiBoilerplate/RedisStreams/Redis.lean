import FastapiBoilerplate.Lib.Lists
import FastapiBoilerplate.Lib.Run
import FastapiBoilerplate.RedisStreams.Base

/-!
# The Redis stream group

`src/redis_streams/redis_group.py`, and the stream and the group under it. The server runs one
command after the other, each to its end, by a clock in milliseconds. A pending row is reassigned,
its time reset and its count raised by `XCLAIM`, in one command with the check of its idle time; a
row whose entry has gone is dropped on the way. `XGROUP DELCONSUMER` drops every row of the
consumer. An `XREADGROUP` that blocks is served by the next `XADD` that finds it still there: a
client that was cancelled stays there until the server has noticed.

What happens to the pending rows is written to a log, row by row (`PelMoves`). Ids go over the
wire as text and come back as they went; an approximate trim is a number of deletions; nothing
here deletes the stream or the group, so the group is there from the first `start` on.
-/

namespace RedisStreams.Redis

open Lib List Option

/-! ## The server -/

abbrev RawFields := Dict Bytes Bytes

/-- A row of the pending entries list. -/
structure Nack where
  consumer : Text
  deliveryTime : ℕ
  deliveryCount : ℕ
  deriving DecidableEq

structure ConsumerGroup where
  lastId : StreamEntryId
  pel : Dict StreamEntryId Nack := ∅
  deriving DecidableEq

/-- A client that waits in `XREADGROUP`. -/
structure Blocked where
  ticket : ℕ
  consumer : Text
  count : ℕ

structure Db where
  entries : Dict StreamEntryId RawFields := ∅
  lastId : StreamEntryId := ⟨0, 0⟩
  group : Option ConsumerGroup := none
  blocked : List Blocked := []

inductive Event
  | delivered (consumer : Text) (id : StreamEntryId)
  | claimed (consumer : Text) (id : StreamEntryId)
  | acked (id : StreamEntryId)
  | vanished (id : StreamEntryId)
  | dropped (consumer : Text) (id : StreamEntryId)
  deriving DecidableEq

namespace ConsumerGroup

variable (g : ConsumerGroup) (now : ℕ)

/-- What `XREADGROUP ... >` finds. -/
def fresh (entries : Dict StreamEntryId RawFields) (count : ℕ) :
    List (StreamEntryId × RawFields) :=
  let entries := entries.items.insertionSort fun a b => a.1 ≤ b.1
  (entries.filter fun entry => g.lastId < entry.1).take count

/-- One entry goes to a consumer. -/
def deliver (consumer : Text) (g : ConsumerGroup) (id : StreamEntryId) : ConsumerGroup :=
  ⟨id, g.pel.set id ⟨consumer, now, 1⟩⟩

/-- `XREADGROUP ... >`, the rows. -/
def deliverAll (consumer : Text) (ids : List StreamEntryId) : ConsumerGroup :=
  ids.foldl (deliver now consumer) g

/-- The rows of `XPENDING` with a range; `after` is an exclusive start. -/
def rows (idle count : ℕ) (after : Option StreamEntryId) : List (StreamEntryId × Nack) :=
  let rows := g.pel.items.insertionSort fun a b => a.1 ≤ b.1
  (rows.filter fun row =>
    after.all (fun id => decide (id < row.1)) && decide (idle ≤ now - row.2.deliveryTime)).take count

/-- `XCLAIM` of one id. -/
def claimOne (entries : Dict StreamEntryId RawFields) (consumer : Text) (minIdle : ℕ)
    (id : StreamEntryId) : ConsumerGroup × Option RawFields × List Event :=
  match g.pel.get id with
  | none => (g, none, [])
  | some row =>
    match entries.get id with
    | none => ({ g with pel := g.pel.erase id }, none, [.vanished id])
    | some fields =>
      if now - row.deliveryTime < minIdle then (g, none, [])
      else
        ({ g with pel := g.pel.set id ⟨consumer, now, row.deliveryCount + 1⟩ }, some fields,
          [.claimed consumer id])

/-- `XCLAIM`. -/
def claim (entries : Dict StreamEntryId RawFields) (consumer : Text) (minIdle : ℕ) :
    List StreamEntryId → ConsumerGroup →
      ConsumerGroup × List (StreamEntryId × RawFields) × List Event
  | [], g => (g, [], [])
  | id :: ids, g =>
    let (g, fields, events) := g.claimOne now entries consumer minIdle id
    let (g, reply, events') := claim entries consumer minIdle ids g
    (g, (fields.map fun fields => (id, fields)).toList ++ reply, events ++ events')

/-- `XACK`. -/
def ack : List StreamEntryId → ConsumerGroup → ConsumerGroup × List Event
  | [], g => (g, [])
  | id :: ids, g =>
    match g.pel.get id with
    | none => ack ids g
    | some _ =>
      let (g, events) := ack ids { g with pel := g.pel.erase id }
      (g, .acked id :: events)

/-- The ids a consumer owes. -/
def owed (consumer : Text) : List StreamEntryId :=
  (g.pel.items.filter fun row => row.2.consumer = consumer).map Prod.fst

/-- `XGROUP DELCONSUMER`. -/
def delConsumer (consumer : Text) : ConsumerGroup × List Event :=
  ({ g with pel := (g.owed consumer).foldl Dict.erase g.pel },
    (g.owed consumer).map (.dropped consumer))

/-- The blocked clients are served in their order, as far as there is something to read. -/
def serve (entries : Dict StreamEntryId RawFields) :
    List Blocked → ConsumerGroup → ConsumerGroup × List Blocked × List Event
  | [], g => (g, [], [])
  | b :: blocked, g =>
    match (g.fresh entries b.count).map Prod.fst with
    | [] =>
      let (g, blocked, events) := serve entries blocked g
      (g, b :: blocked, events)
    | ids =>
      let (g, blocked, events) := serve entries blocked (g.deliverAll now b.consumer ids)
      (g, blocked, ids.map (.delivered b.consumer) ++ events)

end ConsumerGroup

variable {g g' : ConsumerGroup} {es : List Event}

namespace Db

variable (db : Db) (now : ℕ)

def nextId : StreamEntryId :=
  if db.lastId.ms < now then ⟨now, 0⟩ else ⟨db.lastId.ms, db.lastId.seq + 1⟩

/-- `XADD`, and the service of the clients that wait for it. -/
def xadd (fields : RawFields) : Db × List Event :=
  let id := db.nextId now
  let entries := db.entries.set id fields
  match db.group with
  | none => ({ db with entries, lastId := id }, [])
  | some g =>
    let (g, blocked, events) := g.serve now entries db.blocked
    ({ entries, lastId := id, group := some g, blocked }, events)

theorem xadd_some (hg : db.group = some g) (fields : RawFields) :
    ∃ out, g.serve now (db.entries.set (db.nextId now) fields) db.blocked = out ∧
      db.xadd now fields =
        (⟨db.entries.set (db.nextId now) fields, db.nextId now, some out.1, out.2.1⟩, out.2.2) := by
  refine ⟨_, rfl, ?_⟩
  simp only [xadd, hg]

/-- `XGROUP CREATE ... $ MKSTREAM`; on a group that exists, `BUSYGROUP`. -/
def create : Db :=
  match db.group with
  | none => { db with group := some ⟨db.lastId, ∅⟩ }
  | some _ => db

end Db

/-! ## The client -/

/-- `to_ms`. -/
def toMs (seconds : Seconds) : ℕ := (truncate (seconds * 1000)).toNat

/-- `decode_fields`. -/
def decodeFields (raw : RawFields) : Except Exc Fields :=
  raw.items.foldlM (fun fields (name, value) =>
    match utf8Decode name with
    | some name => .ok (fields.set name value)
    | none =>
      .error (.stream (.decode (lit "A stream entry has a field name that is not UTF-8.")))) ∅

/-- `RedisStreamGroup`. -/
structure RedisStreamGroup where
  stream : Text
  group : Text
  consumer : Text
  started : Bool := false
  stream_ne : stream ≠ [] := by decide
  group_ne : group ≠ [] := by decide
  consumer_ne : consumer ≠ [] := by decide

namespace RedisStreamGroup

variable (c : RedisStreamGroup) (db : Db) (now : ℕ)

def notStarted : Exc := .stream (.lifecycle (lit "This consumer group has not been started."))

/-- `_handle_response_error` for `NOGROUP`, which also unstarts the group. -/
def vanished (what : Text) : Exc :=
  .stream (.group (lit "The stream or group vanished while trying to " ++ what ++ lit "."))

def unstart : RedisStreamGroup := { c with started := false }

/-- `stalled`. -/
def stalled (minIdle : Seconds) (count : ℕ) (start : Option StreamEntryId) :
    RedisStreamGroup × Except Exc (List PendingEntry) :=
  if count < 1 then (c, .error (.value (lit "count must be at least 1.")))
  else if !c.started then (c, .error notStarted)
  else
    match db.group with
    | none => (c.unstart, .error (vanished (lit "list pending entries")))
    | some g =>
      (c, .ok ((g.rows now (toMs minIdle) count start).map fun (id, row) =>
        ⟨id, row.consumer, ((now - row.deliveryTime : ℕ) : ℚ) / 1000, row.deliveryCount⟩))

/-- The loop of `claim` over the reply: the messages, and what is left of `wanted`. -/
def claimReply : List (StreamEntryId × RawFields) → Dict StreamEntryId PendingEntry →
    Except Exc (List StreamMessage × Dict StreamEntryId PendingEntry)
  | [], wanted => .ok ([], wanted)
  | (id, raw) :: reply, wanted =>
    match wanted.get id with
    | none => claimReply reply wanted
    | some entry =>
      match decodeFields raw with
      | .error e => .error e
      | .ok fields =>
        match claimReply reply (wanted.erase id) with
        | .error e => .error e
        | .ok (messages, wanted) =>
          .ok (⟨c.stream, id, fields, entry.deliveryCount + 1, true⟩ :: messages, wanted)

def wanted (entries : List PendingEntry) : Dict StreamEntryId PendingEntry :=
  entries.foldl (fun d entry => d.set entry.id entry) ∅

/-- `claim`: the server after it, what it did to the rows, and the result. -/
def claim (entries : List PendingEntry) (minIdle : Seconds) :
    Db × List Event × RedisStreamGroup × Except Exc ClaimedMessage :=
  if !c.started then (db, [], c, .error notStarted)
  else if entries = [] then (db, [], c, .ok ⟨[], []⟩)
  else
    match db.group with
    | none => (db, [], c.unstart, .error (vanished (lit "claim pending entries")))
    | some g =>
      let (g, reply, events) :=
        g.claim now db.entries c.consumer (toMs minIdle) (entries.map PendingEntry.id)
      ({ db with group := some g }, events, c,
        (c.claimReply reply (wanted entries)).map fun (messages, left) =>
          ⟨messages, (left.items.map Prod.fst).insertionSort (· ≤ ·)⟩)

/-- Either `claim` stops before it asks the server, or it is one `XCLAIM` and its reply. -/
theorem claim_cases (entries : List PendingEntry) (minIdle : Seconds) :
    (∃ c' result, c.claim db now entries minIdle = (db, [], c', result) ∧
      ∀ out, result = .ok out → out.messages = []) ∨
    ∃ g out, db.group = some g ∧
      g.claim now db.entries c.consumer (toMs minIdle) (entries.map PendingEntry.id) = out ∧
      c.claim db now entries minIdle =
        (⟨db.entries, db.lastId, some out.1, db.blocked⟩, out.2.2, c,
          (c.claimReply out.2.1 (wanted entries)).map fun (messages, left) =>
            ⟨messages, (left.items.map Prod.fst).insertionSort (· ≤ ·)⟩) := by
  unfold claim
  split
  · exact .inl ⟨_, _, rfl, nofun⟩
  split
  · refine .inl ⟨_, _, rfl, fun out h => ?_⟩
    cases h
    rfl
  · split
    · exact .inl ⟨_, _, rfl, nofun⟩
    · rename_i g hg
      exact .inr ⟨g, _, hg, rfl, rfl⟩

/-- `block_ms` of `read`. -/
def blockMs (block : Seconds) : Option ℕ := if 0 < block then some (toMs block) else none

end RedisStreamGroup

/-! ## The system -/

/-- What a client waits for: nothing, the reply of a blocked read, or, inside `stop`, the removal
    of its consumer. -/
inductive Phase
  | idle
  | blocked (ticket : ℕ)
  | retiring
  deriving DecidableEq

structure Client where
  group : RedisStreamGroup
  phase : Phase := .idle

/-- A consumer of a group, before its `start`. -/
def member (s g c : Char) : Client where
  group := ⟨letter s, letter g, letter c, false, letter_ne s, letter_ne g, letter_ne c⟩

structure Sys where
  db : Db := {}
  now : ℕ := 0
  clients : List Client
  serial : ℕ := 0
  log : List Event := []

inductive Action
  | tick (ms : ℕ)
  | xadd (fields : RawFields)
  | discard (id : StreamEntryId)
  | start (i : ℕ)
  | claim (i : ℕ) (entries : List PendingEntry) (minIdle : Seconds)
  | read (i : ℕ) (count : ℕ) (block : Seconds)
  | ack (i : ℕ) (ids : List StreamEntryId)
  | timeout (i : ℕ)
  | cancel (i : ℕ)
  | notice (ticket : ℕ)
  | count (i : ℕ)
  | remove (i : ℕ)

namespace Sys

/-- A client whose blocked read has been answered goes on. -/
def wake (blocked : List Blocked) (c : Client) : Client :=
  match c.phase with
  | .blocked ticket =>
    if blocked.any fun b => b.ticket = ticket then c else { c with phase := .idle }
  | _ => c

def xadd (s : Sys) (fields : RawFields) : Sys :=
  let (db, events) := s.db.xadd s.now fields
  { s with db, clients := s.clients.map (wake db.blocked), log := s.log ++ events }

def claim (s : Sys) (i : ℕ) (c : Client) (entries : List PendingEntry) (minIdle : Seconds) : Sys :=
  let (db, events, group, _) := c.group.claim s.db s.now entries minIdle
  { s with db, clients := s.clients.set i { c with group }, log := s.log ++ events }

/-- `read`, with `XREADGROUP` as the server runs it. -/
def read (s : Sys) (i : ℕ) (c : Client) (count : ℕ) (block : Seconds) : Sys :=
  match s.db.group with
  | none => { s with clients := s.clients.set i { c with group := c.group.unstart } }
  | some g =>
    match (g.fresh s.db.entries count).map Prod.fst with
    | [] =>
      match RedisStreamGroup.blockMs block with
      | none => s
      | some _ =>
        { s with
          db := { s.db with blocked := s.db.blocked ++ [⟨s.serial, c.group.consumer, count⟩] }
          clients := s.clients.set i { c with phase := .blocked s.serial }
          serial := s.serial + 1 }
    | ids =>
      { s with
        db := { s.db with group := some (g.deliverAll s.now c.group.consumer ids) }
        log := s.log ++ ids.map (.delivered c.group.consumer) }

def ack (s : Sys) (ids : List StreamEntryId) : Sys :=
  match s.db.group with
  | none => s
  | some g =>
    { s with db := { s.db with group := some (g.ack ids).1 }, log := s.log ++ (g.ack ids).2 }

/-- The end of `stop`. -/
def leave (s : Sys) (i : ℕ) (c : Client) : Sys :=
  { s with clients := s.clients.set i ⟨c.group.unstart, .idle⟩ }

/-- `_retire_consumer`, the count: only a consumer that owes nothing goes on to the removal. -/
def count (s : Sys) (i : ℕ) (c : Client) : Sys :=
  match s.db.group with
  | none => s.leave i c
  | some g =>
    if g.owed c.group.consumer = [] then
      { s with clients := s.clients.set i { c with phase := .retiring } }
    else s.leave i c

/-- `_retire_consumer`, the removal. -/
def remove (s : Sys) (i : ℕ) (c : Client) : Sys :=
  match s.db.group with
  | none => s.leave i c
  | some g =>
    { s with
      db := { s.db with group := some (g.delConsumer c.group.consumer).1 }
      clients := s.clients.set i ⟨c.group.unstart, .idle⟩
      log := s.log ++ (g.delConsumer c.group.consumer).2 }

/-- A client that is free to call a method of its group. -/
def free (s : Sys) (i : ℕ) : Option Client := (s.clients[i]?).filter fun c => c.phase = .idle

def step (s : Sys) : Action → Option Sys
  | .tick ms => some { s with now := s.now + ms }
  | .xadd fields => some (s.xadd fields)
  | .discard id => some { s with db := { s.db with entries := s.db.entries.erase id } }
  | .start i =>
    (s.free i).map fun c =>
      { s with
        db := s.db.create
        clients := s.clients.set i { c with group := { c.group with started := true } } }
  | .claim i entries minIdle => (s.free i).map fun c => s.claim i c entries minIdle
  | .read i count block =>
    (s.free i).bind fun c =>
      if c.group.started ∧ 1 ≤ count then some (s.read i c count block) else none
  | .ack i ids => (s.free i).bind fun c => if c.group.started then some (s.ack ids) else none
  | .timeout i =>
    (s.clients[i]?).bind fun c =>
      match c.phase with
      | .blocked ticket =>
        some { s with
          db := { s.db with blocked := s.db.blocked.filter fun b => b.ticket ≠ ticket }
          clients := s.clients.set i { c with phase := .idle } }
      | _ => none
  | .cancel i =>
    (s.clients[i]?).map fun c => { s with clients := s.clients.set i { c with phase := .idle } }
  | .notice ticket =>
    if s.clients.any fun c => c.phase = .blocked ticket then none
    else some { s with
      db := { s.db with blocked := s.db.blocked.filter fun b => b.ticket ≠ ticket } }
  | .count i => (s.free i).bind fun c => if c.group.started then some (s.count i c) else none
  | .remove i =>
    (s.clients[i]?).bind fun c => if c.phase = .retiring then some (s.remove i c) else none

/-- Nothing on the server, and consumers that each have a name of their own. -/
structure Initial (s : Sys) : Prop where
  db : s.db = {}
  log : s.log = []
  idle : ∀ c ∈ s.clients, c.phase = .idle
  names : (s.clients.map fun c => c.group.consumer).Nodup

end Sys

/-! ## What happens to the rows -/

/-- One row comes in, changes hands or goes. -/
inductive PelMove (g : ConsumerGroup) : Event → ConsumerGroup → Prop
  | deliver (consumer : Text) (id : StreamEntryId) (now : ℕ) (past : g.lastId < id) :
      PelMove g (.delivered consumer id) ⟨id, g.pel.set id ⟨consumer, now, 1⟩⟩
  | claim (consumer : Text) (id : StreamEntryId) (now : ℕ) (row : Nack)
      (there : g.pel.get id = some row) :
      PelMove g (.claimed consumer id)
        { g with pel := g.pel.set id ⟨consumer, now, row.deliveryCount + 1⟩ }
  | ack (id : StreamEntryId) : PelMove g (.acked id) { g with pel := g.pel.erase id }
  | vanish (id : StreamEntryId) : PelMove g (.vanished id) { g with pel := g.pel.erase id }
  | drop (consumer : Text) (id : StreamEntryId) :
      PelMove g (.dropped consumer id) { g with pel := g.pel.erase id }

inductive PelMoves : ConsumerGroup → List Event → ConsumerGroup → Prop
  | nil (g : ConsumerGroup) : PelMoves g [] g
  | cons {g g' g'' : ConsumerGroup} {e : Event} {es : List Event} (move : PelMove g e g')
      (rest : PelMoves g' es g'') : PelMoves g (e :: es) g''

theorem PelMoves.append {g'' : ConsumerGroup} {es' : List Event} (h : PelMoves g es g')
    (h' : PelMoves g' es' g'') : PelMoves g (es ++ es') g'' := by
  induction h with
  | nil => exact h'
  | cons move _ ih => exact .cons move (ih h')

theorem fresh_ids (g : ConsumerGroup) (entries : Dict StreamEntryId RawFields) (count : ℕ) :
    ((g.fresh entries count).map Prod.fst).Pairwise (· < ·) ∧
      ∀ id ∈ (g.fresh entries count).map Prod.fst, g.lastId < id := by
  have hless := (pairwise_map.mpr (pairwise_sort entries.items)).imp₂
    (fun _ _ => lt_of_le_of_ne) (nodup_sort entries)
  refine ⟨hless.sublist (((take_sublist _ _).trans filter_sublist).map _), ?_⟩
  intro id hid
  obtain ⟨entry, hentry, rfl⟩ := mem_map.mp hid
  exact of_decide_eq_true (mem_filter.mp (mem_of_mem_take hentry)).2

/-- A row goes to one of the consumers, or goes for a reason. -/
def Event.To (names : List Text) : Event → Prop
  | .delivered name _ | .claimed name _ => name ∈ names
  | .acked _ | .vanished _ => True
  | .dropped _ _ => False

theorem Event.To.mono {names names' : List Text} {e : Event} (h : e.To names)
    (hsub : names ⊆ names') : e.To names' := by
  cases e with
  | delivered | claimed => exact hsub h
  | acked => trivial
  | vanished => trivial
  | dropped => exact h

/-! What each command does to the rows, and who gets them. -/

section
variable {g : ConsumerGroup} {entries : Dict StreamEntryId RawFields} {consumer : Text} {now : ℕ}

theorem deliverAll_moves {ids : List StreamEntryId} (hids : ids.Pairwise (· < ·))
    (hpast : ∀ id ∈ ids, g.lastId < id) :
    PelMoves g (ids.map (.delivered consumer)) (g.deliverAll now consumer ids) ∧
      ∀ e ∈ ids.map (Event.delivered consumer), e.To [consumer] := by
  refine ⟨?_, List.forall_mem_map.mpr fun id _ => mem_singleton_self consumer⟩
  induction ids generalizing g with
  | nil => exact .nil g
  | cons id ids ih =>
    rw [pairwise_cons] at hids
    exact .cons (.deliver consumer id now (hpast id mem_cons_self)) (ih hids.2 hids.1)

theorem claimOne_moves (minIdle : ℕ) (id : StreamEntryId) :
    PelMoves g (g.claimOne now entries consumer minIdle id).2.2
        (g.claimOne now entries consumer minIdle id).1 ∧
      ∀ e ∈ (g.claimOne now entries consumer minIdle id).2.2, e.To [consumer] := by
  unfold ConsumerGroup.claimOne
  split
  · exact ⟨.nil g, nofun⟩
  rename_i row hrow
  split
  · exact ⟨.cons (.vanish id) (.nil _), by simp [Event.To]⟩
  split
  · exact ⟨.nil g, nofun⟩
  · exact ⟨.cons (.claim consumer id now row hrow) (.nil _), by simp [Event.To]⟩

theorem claim_moves (minIdle : ℕ) (ids : List StreamEntryId) :
    PelMoves g (g.claim now entries consumer minIdle ids).2.2
        (g.claim now entries consumer minIdle ids).1 ∧
      ∀ e ∈ (g.claim now entries consumer minIdle ids).2.2, e.To [consumer] := by
  induction ids generalizing g with
  | nil => exact ⟨.nil g, nofun⟩
  | cons id ids ih =>
    exact ⟨(claimOne_moves minIdle id).1.append ih.1,
      forall_mem_append.mpr ⟨(claimOne_moves minIdle id).2, ih.2⟩⟩

theorem ack_moves (ids : List StreamEntryId) :
    PelMoves g (g.ack ids).2 (g.ack ids).1 ∧ ∀ e ∈ (g.ack ids).2, e.To [] := by
  induction ids generalizing g with
  | nil => exact ⟨.nil g, nofun⟩
  | cons id ids ih =>
    rw [ConsumerGroup.ack]
    split
    · exact ih
    · exact ⟨.cons (.ack id) ih.1, forall_mem_cons.mpr ⟨trivial, ih.2⟩⟩

theorem delConsumer_moves : PelMoves g (g.delConsumer consumer).2 (g.delConsumer consumer).1 := by
  unfold ConsumerGroup.delConsumer
  generalize g.owed consumer = ids
  induction ids generalizing g with
  | nil => exact .nil g
  | cons id ids ih => exact .cons (.drop consumer id) (@ih { g with pel := g.pel.erase id })

theorem serve_moves (blocked : List Blocked) :
    PelMoves g (g.serve now entries blocked).2.2 (g.serve now entries blocked).1 ∧
      ∀ e ∈ (g.serve now entries blocked).2.2, e.To (blocked.map Blocked.consumer) := by
  induction blocked generalizing g with
  | nil => exact ⟨.nil g, nofun⟩
  | cons b blocked ih =>
    have hrest : ∀ {g : ConsumerGroup}, ∀ e ∈ (g.serve now entries blocked).2.2,
        e.To ((b :: blocked).map Blocked.consumer) :=
      fun e he => (ih.2 e he).mono (subset_cons_self _ _)
    rw [ConsumerGroup.serve]
    split
    · exact ⟨ih.1, hrest⟩
    · obtain ⟨hids, hpast⟩ := fresh_ids g entries b.count
      exact ⟨(deliverAll_moves hids hpast).1.append ih.1,
        forall_mem_append.mpr ⟨List.forall_mem_map.mpr fun _ _ => mem_cons_self, hrest⟩⟩

end

namespace Sys

variable {s s' : Sys} {a : Action} {i : ℕ} {c : Client} {P : Event → Prop}

theorem free_eq_some : s.free i = some c ↔ s.clients[i]? = some c ∧ c.phase = .idle := by
  rw [free, filter_eq_some_iff, decide_eq_true_eq]

/-- The rows of the group go from where they are by the moves that the step logs, all of which are
    `P`; a new group has none. -/
structure Follows (P : Event → Prop) (s s' : Sys) : Prop where
  rows : ∀ g, s.db.group = some g → ∃ g' es, s'.db.group = some g' ∧ s'.log = s.log ++ es ∧
    PelMoves g es g' ∧ ∀ e ∈ es, P e
  fresh : s.db.group = none → s'.log = s.log ∧ ∀ g, s'.db.group = some g → g.pel = ∅

theorem Follows.weaken {Q : Event → Prop} (h : Follows P s s') (himp : ∀ e, P e → Q e) :
    Follows Q s s' where
  rows g hg := by
    obtain ⟨g', es, hg', hlog, hmoves, hes⟩ := h.rows g hg
    exact ⟨g', es, hg', hlog, hmoves, fun e he => himp e (hes e he)⟩
  fresh := h.fresh

theorem Follows.same (hgroup : s'.db.group = s.db.group) (hlog : s'.log = s.log) :
    Follows P s s' where
  rows g hg :=
    ⟨g, [], hgroup.trans hg, by rw [hlog, append_nil], .nil g, nofun⟩
  fresh hnone := by
    refine ⟨hlog, fun g hg => ?_⟩
    rw [hgroup, hnone] at hg
    cases hg

theorem Follows.of_moves (hg : s.db.group = some g) (hg' : s'.db.group = some g')
    (hlog : s'.log = s.log ++ es) (hmoves : PelMoves g es g' ∧ ∀ e ∈ es, P e) :
    Follows P s s' where
  rows g₀ hg₀ := by
    cases hg.symm.trans hg₀
    exact ⟨g', es, hg', hlog, hmoves⟩
  fresh hnone := by
    rw [hg] at hnone
    cases hnone

theorem xadd_follows (fields : RawFields) :
    Follows (Event.To (s.db.blocked.map Blocked.consumer)) s (s.xadd fields) := by
  cases hg : s.db.group with
  | none =>
    have hxadd : s.db.xadd s.now fields = (⟨s.db.entries.set (s.db.nextId s.now) fields,
        s.db.nextId s.now, none, s.db.blocked⟩, []) := by
      simp only [Db.xadd, hg]
    unfold Sys.xadd
    rw [hxadd]
    exact .same hg.symm (append_nil _)
  | some =>
    obtain ⟨out, rfl, hxadd⟩ := s.db.xadd_some s.now hg fields
    unfold Sys.xadd
    rw [hxadd]
    exact .of_moves hg rfl rfl (serve_moves s.db.blocked)

theorem claim_follows (entries : List PendingEntry) (minIdle : Seconds) :
    Follows (Event.To [c.group.consumer]) s (s.claim i c entries minIdle) := by
  unfold Sys.claim
  rcases c.group.claim_cases s.db s.now entries minIdle with
    ⟨_, _, h, -⟩ | ⟨g, _, hg, rfl, h⟩
  · rw [h]
    exact .same rfl (append_nil _)
  · rw [h]
    exact .of_moves hg rfl rfl (claim_moves _ _)

theorem read_follows (count : ℕ) (block : Seconds) :
    Follows (Event.To [c.group.consumer]) s (s.read i c count block) := by
  unfold Sys.read
  split
  · exact .same rfl rfl
  rename_i g hg
  split
  · split
    · exact .same rfl rfl
    · exact .same rfl rfl
  · obtain ⟨hids, hpast⟩ := fresh_ids g s.db.entries count
    exact .of_moves hg rfl rfl (deliverAll_moves hids hpast)

theorem ack_follows (ids : List StreamEntryId) : Follows (Event.To []) s (s.ack ids) := by
  unfold Sys.ack
  split
  · exact .same rfl rfl
  · rename_i g hg
    exact .of_moves hg rfl rfl (ack_moves ids)

theorem count_follows : Follows (Event.To []) s (s.count i c) := by
  unfold Sys.count
  split
  · exact .same rfl rfl
  · split <;> exact .same rfl rfl

theorem remove_follows : Follows (fun _ => True) s (s.remove i c) := by
  unfold Sys.remove
  split
  · exact .same rfl rfl
  · rename_i g hg
    exact .of_moves hg rfl rfl ⟨delConsumer_moves, fun _ _ => trivial⟩

theorem start_follows {clients : List Client} :
    Follows (Event.To []) s { s with db := s.db.create, clients } where
  rows g hg :=
    ⟨g, [], by simp [Db.create, hg], (append_nil _).symm, .nil g, nofun⟩
  fresh hnone := by
    refine ⟨rfl, fun g hg => ?_⟩
    simp only [Db.create, hnone, some.injEq] at hg
    rw [← hg]

theorem step_follows (h : s.step a = some s') : Follows (fun _ => True) s s' := by
  cases a with
  | tick | discard =>
    cases h
    exact .same rfl rfl
  | xadd fields =>
    cases h
    exact (xadd_follows fields).weaken fun _ _ => trivial
  | start =>
    obtain ⟨c, -, rfl⟩ := map_eq_some_iff.mp h
    exact start_follows.weaken fun _ _ => trivial
  | claim i entries minIdle =>
    obtain ⟨c, -, rfl⟩ := map_eq_some_iff.mp h
    exact (claim_follows entries minIdle).weaken fun _ _ => trivial
  | read i count block =>
    obtain ⟨c, -, h⟩ := bind_eq_some_iff.mp h
    split at h <;> cases h
    exact (read_follows count block).weaken fun _ _ => trivial
  | ack i ids =>
    obtain ⟨c, -, h⟩ := bind_eq_some_iff.mp h
    split at h <;> cases h
    exact (ack_follows ids).weaken fun _ _ => trivial
  | timeout =>
    obtain ⟨c, -, h⟩ := bind_eq_some_iff.mp h
    split at h <;> cases h
    exact .same rfl rfl
  | cancel =>
    obtain ⟨c, -, rfl⟩ := map_eq_some_iff.mp h
    exact .same rfl rfl
  | notice =>
    simp only [step] at h
    split at h <;> cases h
    exact .same rfl rfl
  | count =>
    obtain ⟨c, -, h⟩ := bind_eq_some_iff.mp h
    split at h <;> cases h
    exact count_follows.weaken fun _ _ => trivial
  | remove =>
    obtain ⟨c, -, h⟩ := bind_eq_some_iff.mp h
    split at h <;> cases h
    exact remove_follows

end Sys

end RedisStreams.Redis
