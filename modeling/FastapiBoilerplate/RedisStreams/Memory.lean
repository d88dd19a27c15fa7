import FastapiBoilerplate.Lib.Lists
import FastapiBoilerplate.RedisStreams.Base

/-!
# The in-process stream server

`src/redis_streams/memory.py`: `InMemoryStreamServer`, the streams and groups it holds, and
`InMemoryStreamGroup`, a client of one group. An operation gets the server and the reading of its
clock and answers the server after it. The names that `_stream_for` creates on a lookup are
observable in `stream_names` only, so a lookup here creates nothing.

`read` is two looks with a wait between them; each look is `readNow`, and the wait belongs to the
caller.
-/

namespace RedisStreams

open Lib List

/-! ## Streams and groups -/

/-- `_Pending`. -/
structure Pending where
  consumer : Text
  deliveredAt : Seconds
  deliveryCount : ℕ := 1

/-- The row of an entry that has been claimed. -/
def Pending.claimedBy (row : Pending) (consumer : Text) (now : Seconds) : Pending :=
  ⟨consumer, now, row.deliveryCount + 1⟩

/-- `_Group`. -/
structure Group where
  lastDelivered : StreamEntryId
  pending : Dict StreamEntryId Pending := ∅

/-- `_Stream`. -/
structure Stream where
  entries : Dict StreamEntryId Fields := ∅
  groups : Dict Text Group := ∅
  lastId : StreamEntryId := ⟨0, 0⟩

namespace Stream

variable (st : Stream)

/-- The entries in the order of `sorted(stream.entries)`. -/
def sorted : List (StreamEntryId × Fields) := st.entries.items.insertionSort fun a b => a.1 ≤ b.1

/-- `_next_id`. -/
def nextId (now : Seconds) : StreamEntryId :=
  let ms := truncate (now * 1000)
  if (st.lastId.ms : ℤ) < ms then ⟨ms.toNat, 0⟩ else ⟨st.lastId.ms, st.lastId.seq + 1⟩

/-- The entries that `_trim` deletes. -/
def excess (maxlen : ℕ) : List StreamEntryId :=
  (st.sorted.map Prod.fst).take (st.entries.items.length - maxlen)

/-- `_trim`. -/
def trim (maxlen : ℕ) : Stream :=
  { st with entries := (st.excess maxlen).foldl Dict.erase st.entries }

/-- `append` before it trims. -/
def add (id : StreamEntryId) (fields : Fields) : Stream :=
  { st with entries := st.entries.set id fields, lastId := id }

end Stream

/-- `InMemoryStreamServer`. -/
structure Server where
  streams : Dict Text Stream := ∅

namespace Server

variable (server : Server) (now : Seconds) (name : Text)

/-- `_stream_for`. -/
def streamFor : Stream := (server.streams.get name).getD {}

def put (st : Stream) : Server := { streams := server.streams.set name st }

/-- The entries that `append` trims away. -/
def overflow (fields : Fields) (maxlen : ℕ) : List StreamEntryId :=
  let st := server.streamFor name
  if maxlen = 0 then [] else (st.add (st.nextId now) fields).excess maxlen

/-- `append`. -/
def append (fields : Fields) (maxlen : ℕ) : Except Exc (Server × StreamEntryId) :=
  match validateFields fields with
  | .error e => .error e
  | .ok () =>
    let st := server.streamFor name
    let id := st.nextId now
    let st := st.add id fields
    .ok (server.put name (if maxlen = 0 then st else st.trim maxlen), id)

/-- `delete`. -/
def delete (id : StreamEntryId) : Server × ℕ :=
  let st := server.streamFor name
  (server.put name { st with entries := st.entries.erase id },
    if (st.entries.get id).isSome then 1 else 0)

/-- `stream.groups.get(group)`. -/
def groupFor (group : Text) : Option Group := (server.streamFor name).groups.get group

def setGroup (group : Text) (g : Group) : Server :=
  let st := server.streamFor name
  server.put name { st with groups := st.groups.set group g }

end Server

/-! ## What a client does to its group -/

namespace Group

/-- One entry of the loop of `_read_now` that is past `last_delivered`. -/
def deliver (g : Group) (consumer : Text) (now : Seconds) (id : StreamEntryId) : Group where
  lastDelivered := id
  pending := g.pending.set id ⟨consumer, now, 1⟩

/-- The loop of `_read_now`, over what is left of the entries. -/
def readLoop (stream consumer : Text) (now : Seconds) (count : ℕ) :
    List (StreamEntryId × Fields) → Group → List StreamMessage → Group × List StreamMessage
  | [], g, messages => (g, messages)
  | (id, fields) :: entries, g, messages =>
    if id ≤ g.lastDelivered then readLoop stream consumer now count entries g messages
    else
      let g := g.deliver consumer now id
      let messages := messages ++ [⟨stream, id, fields, 1, false⟩]
      if count ≤ messages.length then (g, messages)
      else readLoop stream consumer now count entries g messages

/-- The rows that `stalled` finds. -/
def stalledRows (g : Group) (now minIdle : Seconds) (count : ℕ) (start : Option StreamEntryId) :
    List PendingEntry :=
  let rows := g.pending.items.insertionSort fun a b => a.1 ≤ b.1
  let rows := rows.filter fun row =>
    start.all (fun s => decide (s < row.1)) && decide (minIdle ≤ now - row.2.deliveredAt)
  (rows.take count).map fun (id, row) =>
    ⟨id, row.consumer, now - row.deliveredAt, row.deliveryCount⟩

/-- One entry of the loop of `claim`; no message when the entry is missing. -/
def claimOne (entries : Dict StreamEntryId Fields) (stream consumer : Text) (now minIdle : Seconds)
    (g : Group) (entry : PendingEntry) : Group × Option StreamMessage :=
  match g.pending.get entry.id with
  | none => (g, none)
  | some row =>
    if now - row.deliveredAt < minIdle then (g, none)
    else
      match entries.get entry.id with
      | none => ({ g with pending := g.pending.erase entry.id }, none)
      | some fields =>
        ({ g with pending := g.pending.set entry.id (row.claimedBy consumer now) },
          some ⟨stream, entry.id, fields, row.deliveryCount + 1, true⟩)

/-- The loop of `claim`. -/
def claimLoop (entries : Dict StreamEntryId Fields) (stream consumer : Text)
    (now minIdle : Seconds) : List PendingEntry → Group → Group × ClaimedMessage
  | [], g => (g, ⟨[], []⟩)
  | entry :: rest, g =>
    let (g, message) := g.claimOne entries stream consumer now minIdle entry
    let (g, out) := claimLoop entries stream consumer now minIdle rest g
    match message with
    | none => (g, { out with missing := entry.id :: out.missing })
    | some message => (g, { out with messages := message :: out.messages })

/-- The `pop`s of `ack`, with the ids that were there. -/
def ackLoop : List StreamEntryId → Group → Group × List StreamEntryId
  | [], g => (g, [])
  | id :: ids, g =>
    match g.pending.get id with
    | none => ackLoop ids g
    | some _ =>
      let (g, popped) := ackLoop ids { g with pending := g.pending.erase id }
      (g, id :: popped)

end Group

/-- `InMemoryStreamGroup`. -/
structure InMemoryStreamGroup where
  stream : Text
  group : Text
  consumer : Text
  maxlen : ℕ := 0
  started : Bool := false
  stream_ne : stream ≠ [] := by decide
  group_ne : group ≠ [] := by decide
  consumer_ne : consumer ≠ [] := by decide

namespace InMemoryStreamGroup

variable (c : InMemoryStreamGroup) (server : Server) (now : Seconds)

/-- `start`. -/
def start : InMemoryStreamGroup × Server :=
  ({ c with started := true },
    match server.groupFor c.stream c.group with
    | none => server.setGroup c.stream c.group ⟨(server.streamFor c.stream).lastId, ∅⟩
    | some _ => server)

/-- `stop`. -/
def stop : InMemoryStreamGroup := { c with started := false }

/-- `_require_started`. -/
def requireStarted : Except Exc Group :=
  if c.started then
    match server.groupFor c.stream c.group with
    | none => .error (.stream (.group (lit "The consumer group has gone.")))
    | some g => .ok g
  else .error (.stream (.lifecycle (lit "This consumer group has not been started.")))

/-- `publish`. -/
def publish (fields : Fields) (stream : Option Text) : Except Exc (Server × StreamEntryId) :=
  server.append now (stream.getD c.stream) fields c.maxlen

/-- `_read_now`. -/
def readNow (count : ℕ) : Except Exc (Server × List StreamMessage) :=
  match c.requireStarted server with
  | .error e => .error e
  | .ok g =>
    let entries := (server.streamFor c.stream).sorted
    let (g, messages) := g.readLoop c.stream c.consumer now count entries []
    .ok (server.setGroup c.stream c.group g, messages)

/-- `stalled`. -/
def stalled (minIdle : Seconds) (count : ℕ) (start : Option StreamEntryId) :
    Except Exc (List PendingEntry) :=
  if count < 1 then .error (.value (lit "count must be at least 1."))
  else
    match c.requireStarted server with
    | .error e => .error e
    | .ok g => .ok (g.stalledRows now minIdle count start)

/-- `claim`. -/
def claim (entries : List PendingEntry) (minIdle : Seconds) :
    Except Exc (Server × ClaimedMessage) :=
  match c.requireStarted server with
  | .error e => .error e
  | .ok g =>
    let (g, out) :=
      g.claimLoop (server.streamFor c.stream).entries c.stream c.consumer now minIdle entries
    .ok (server.setGroup c.stream c.group g, out)

/-- `ack`, with the ids it popped; their number is what it returns. -/
def ack (ids : List StreamEntryId) : Except Exc (Server × List StreamEntryId) :=
  if ids = [] then .ok (server, [])
  else
    match c.requireStarted server with
    | .error e => .error e
    | .ok g =>
      let (g, popped) := g.ackLoop ids
      .ok (server.setGroup c.stream c.group g, popped)

end InMemoryStreamGroup

/-! ## Looking a server up after a change -/

variable {id : StreamEntryId}

namespace Stream

variable {st : Stream} {now : Seconds}

theorem mem_sorted {entry : StreamEntryId × Fields} :
    entry ∈ st.sorted ↔ st.entries.get entry.1 = some entry.2 := by
  unfold sorted
  rw [mem_insertionSort]
  exact Dict.mem_items

theorem pairwise_sorted : st.sorted.Pairwise fun a b => a.1 ≤ b.1 := by
  exact pairwise_sort _

theorem lastId_lt_nextId : st.lastId < st.nextId now := by
  unfold nextId
  rw [StreamEntryId.lt_iff]
  dsimp only
  split
  · left
    dsimp only
    omega
  · right
    exact ⟨rfl, Nat.lt_succ_self _⟩

/-- What is trimmed away was there, each entry once. -/
theorem excess_nodup (maxlen : ℕ) : (st.excess maxlen).Nodup := by
  exact (nodup_sort st.entries).sublist (take_sublist _ _)

theorem get_of_mem_excess {maxlen : ℕ} (h : id ∈ st.excess maxlen) :
    ∃ fields, st.entries.get id = some fields := by
  obtain ⟨entry, hentry, rfl⟩ := mem_map.mp (mem_of_mem_take h)
  exact ⟨entry.2, mem_sorted.mp hentry⟩

end Stream

namespace Server

variable (server : Server) (name : Text)

@[simp] theorem streamFor_put_self (st : Stream) : (server.put name st).streamFor name = st := by
  simp [streamFor, put, Dict.get_set_self]

theorem streamFor_put_of_ne {name' : Text} (st : Stream) (hne : name' ≠ name) :
    (server.put name st).streamFor name' = server.streamFor name' := by
  simp [streamFor, put, Dict.get_set_of_ne _ _ hne]

theorem groupFor_put_of_ne {name' group : Text} (st : Stream) (hne : name' ≠ name) :
    (server.put name st).groupFor name' group = server.groupFor name' group := by
  rw [groupFor, streamFor_put_of_ne _ _ _ hne, groupFor]

@[simp] theorem groupFor_setGroup (group : Text) (g : Group) :
    (server.setGroup name group g).groupFor name group = some g := by
  simp [groupFor, setGroup, Dict.get_set_self]

@[simp] theorem streamFor_setGroup (group : Text) (g : Group) :
    (server.setGroup name group g).streamFor name =
      { server.streamFor name with groups := (server.streamFor name).groups.set group g } := by
  simp [setGroup]

variable {now : Seconds} {fields : Fields} {maxlen : ℕ}

/-- What `append` leaves of the stream: the new entry is in, the overflow is out. -/
theorem append_eq_ok {server' : Server}
    (h : server.append now name fields maxlen = .ok (server', id)) :
    server' = server.put name { server.streamFor name with
      entries := (server.overflow now name fields maxlen).foldl Dict.erase
        ((server.streamFor name).add ((server.streamFor name).nextId now) fields).entries
      lastId := (server.streamFor name).nextId now } := by
  unfold append at h
  split at h
  · cases h
  cases h
  by_cases hmaxlen : maxlen = 0
  · rw [if_pos hmaxlen, overflow, if_pos hmaxlen]
    rfl
  · rw [if_neg hmaxlen, overflow, if_neg hmaxlen]
    rfl

theorem overflow_nodup : (server.overflow now name fields maxlen).Nodup := by
  unfold overflow
  dsimp only
  split
  · exact nodup_nil
  · exact Stream.excess_nodup maxlen

theorem get_of_mem_overflow (h : id ∈ server.overflow now name fields maxlen) :
    ∃ f, ((server.streamFor name).add ((server.streamFor name).nextId now) fields).entries.get id =
      some f := by
  unfold overflow at h
  dsimp only at h
  split at h
  · cases h
  · exact Stream.get_of_mem_excess h

end Server

/-! ## The loops -/

namespace Group

variable {P : Group → List StreamMessage → Prop} {stream consumer : Text} {now minIdle : Seconds}
  {g : Group} {count : ℕ}

/-- What the loop of `_read_now` keeps, entry by entry: each one delivered is the first past
    `last_delivered`. -/
theorem readLoop_induction {entries : List (StreamEntryId × Fields)}
    (sorted : entries.Pairwise fun a b => a.1 ≤ b.1)
    (deliver : ∀ (g : Group) (messages : List StreamMessage) (id : StreamEntryId) (fields : Fields),
      (id, fields) ∈ entries → g.lastDelivered < id →
      (∀ entry ∈ entries, g.lastDelivered < entry.1 → id ≤ entry.1) → P g messages →
      P (g.deliver consumer now id) (messages ++ [⟨stream, id, fields, 1, false⟩]))
    (h : P g []) :
    P (g.readLoop stream consumer now count entries []).1
      (g.readLoop stream consumer now count entries []).2 := by
  -- the entries before the loop's place are not past `last_delivered`
  suffices hloop : ∀ (rest : List (StreamEntryId × Fields)) (g : Group)
      (messages : List StreamMessage), (∀ entry ∈ rest, entry ∈ entries) →
      rest.Pairwise (fun a b => a.1 ≤ b.1) →
      (∀ entry ∈ entries, entry ∈ rest ∨ entry.1 ≤ g.lastDelivered) → P g messages →
      P (g.readLoop stream consumer now count rest messages).1
        (g.readLoop stream consumer now count rest messages).2 from
    hloop entries g [] (fun _ h => h) sorted (fun _ h => .inl h) h
  intro rest
  induction rest with
  | nil => exact fun g messages _ _ _ h => h
  | cons entry rest ih =>
    intro g messages hsub hsorted hdone h
    obtain ⟨id, fields⟩ := entry
    rw [pairwise_cons] at hsorted
    have hdone : ∀ e ∈ entries, e = (id, fields) ∨ e ∈ rest ∨ e.1 ≤ g.lastDelivered :=
      fun e he => or_assoc.mp ((hdone e he).imp_left mem_cons.mp)
    rw [readLoop]
    split
    · rename_i hle
      refine ih g messages (fun e he => hsub e (mem_cons_of_mem _ he)) hsorted.2 ?_ h
      intro e he
      rcases hdone e he with rfl | hrest
      · exact .inr hle
      · exact hrest
    rename_i hnle
    have hlt : g.lastDelivered < id := not_le.mp hnle
    have hfirst : ∀ e ∈ entries, g.lastDelivered < e.1 → id ≤ e.1 := by
      intro e he hpast
      rcases hdone e he with rfl | hrest | hle
      · exact le_rfl
      · exact hsorted.1 e hrest
      · exact absurd hle (not_le.mpr hpast)
    have hnext := deliver g messages id fields (hsub _ mem_cons_self) hlt hfirst h
    dsimp only
    split
    · exact hnext
    refine ih _ _ (fun e he => hsub e (mem_cons_of_mem _ he)) hsorted.2 ?_ hnext
    intro e he
    rcases hdone e he with rfl | hrest | hle
    · exact .inr le_rfl
    · exact .inl hrest
    · exact .inr (hle.trans hlt.le)

theorem claimOne_cases (entries : Dict StreamEntryId Fields) (g : Group) (entry : PendingEntry) :
    g.claimOne entries stream consumer now minIdle entry = (g, none) ∨
    (entries.get entry.id = none ∧
      g.claimOne entries stream consumer now minIdle entry =
        ({ g with pending := g.pending.erase entry.id }, none)) ∨
    ∃ row fields, g.pending.get entry.id = some row ∧ entries.get entry.id = some fields ∧
      g.claimOne entries stream consumer now minIdle entry =
        ({ g with pending := g.pending.set entry.id (row.claimedBy consumer now) },
          some ⟨stream, entry.id, fields, row.deliveryCount + 1, true⟩) := by
  unfold claimOne
  split
  · exact .inl rfl
  rename_i row hrow
  split
  · exact .inl rfl
  split
  · rename_i hnone
    exact .inr (.inl ⟨hnone, rfl⟩)
  · rename_i fields hfields
    exact .inr (.inr ⟨row, fields, hrow, hfields, rfl⟩)

/-- What the loop of `claim` keeps, entry by entry. -/
theorem claimLoop_induction {entries : Dict StreamEntryId Fields}
    (drop : ∀ (g : Group) (messages : List StreamMessage) (id : StreamEntryId),
      entries.get id = none → P g messages →
      P { g with pending := g.pending.erase id } messages)
    (claim : ∀ (g : Group) (messages : List StreamMessage) (id : StreamEntryId) (row : Pending)
      (fields : Fields), g.pending.get id = some row → entries.get id = some fields →
      P g messages →
      P { g with pending := g.pending.set id (row.claimedBy consumer now) }
        (messages ++ [⟨stream, id, fields, row.deliveryCount + 1, true⟩]))
    (rest : List PendingEntry) (h : P g []) :
    P (g.claimLoop entries stream consumer now minIdle rest).1
      (g.claimLoop entries stream consumer now minIdle rest).2.messages := by
  suffices hloop : ∀ (g : Group) (messages : List StreamMessage), P g messages →
      P (g.claimLoop entries stream consumer now minIdle rest).1
        (messages ++ (g.claimLoop entries stream consumer now minIdle rest).2.messages) from
    hloop g [] h
  induction rest with
  | nil =>
    intro g messages h
    simpa [claimLoop] using h
  | cons entry rest ih =>
    intro g messages h
    rw [claimLoop]
    rcases claimOne_cases entries g entry with
      hone | ⟨hnone, hone⟩ | ⟨row, fields, hrow, hfields, hone⟩
    · rw [hone]
      exact ih g messages h
    · rw [hone]
      exact ih _ messages (drop g messages entry.id hnone h)
    · have hnext := ih _ _ (claim g messages entry.id row fields hrow hfields h)
      rw [append_assoc] at hnext
      rw [hone]
      exact hnext

theorem ackLoop_induction {Q : Group → List StreamEntryId → Prop} (ids : List StreamEntryId)
    (pop : ∀ (g : Group) (popped : List StreamEntryId) (id : StreamEntryId) (row : Pending),
      id ∈ ids → g.pending.get id = some row → Q g popped →
      Q { g with pending := g.pending.erase id } (popped ++ [id]))
    (h : Q g []) : Q (g.ackLoop ids).1 (g.ackLoop ids).2 := by
  suffices hloop : ∀ (rest : List StreamEntryId) (g : Group) (popped : List StreamEntryId),
      rest ⊆ ids → Q g popped → Q (g.ackLoop rest).1 (popped ++ (g.ackLoop rest).2) from
    hloop ids g [] (List.Subset.refl _) h
  intro rest
  induction rest with
  | nil =>
    intro g popped _ h
    simpa [ackLoop] using h
  | cons id rest ih =>
    intro g popped hsub h
    rw [cons_subset] at hsub
    rw [ackLoop]
    split
    · exact ih g popped hsub.2 h
    rename_i row hrow
    have hnext := ih _ _ hsub.2 (pop g popped id row hsub.1 hrow h)
    rw [append_assoc] at hnext
    exact hnext

variable {entries : Dict StreamEntryId Fields} {g : Group} {m : StreamMessage}

theorem readLoop_message {st : Stream}
    (h : m ∈ (g.readLoop stream consumer now count st.sorted []).2) :
    m.stream = stream ∧ st.entries.get m.id = some m.fields ∧ m.deliveryCount = 1 := by
  revert m
  refine readLoop_induction (P := fun _ messages => ∀ {m}, m ∈ messages → m.stream = stream ∧
    st.entries.get m.id = some m.fields ∧ m.deliveryCount = 1) st.pairwise_sorted ?_
    (nofun)
  intro g' messages id fields hmem _ _ hmessages m hm
  rcases mem_snoc.mp hm with hm | rfl
  · exact hmessages hm
  · exact ⟨rfl, Stream.mem_sorted.mp hmem, rfl⟩

theorem claimLoop_message {rest : List PendingEntry}
    (h : m ∈ (g.claimLoop entries stream consumer now minIdle rest).2.messages) :
    m.stream = stream ∧ entries.get m.id = some m.fields := by
  revert m
  refine claimLoop_induction (P := fun _ messages => ∀ {m}, m ∈ messages → m.stream = stream ∧
    entries.get m.id = some m.fields) (fun _ _ _ _ h => h) ?_ rest (nofun)
  intro g' messages id row fields hrow hfields hmessages m hm
  rcases mem_snoc.mp hm with hm | rfl
  · exact hmessages hm
  · exact ⟨rfl, hfields⟩

theorem lastDelivered_claimLoop (rest : List PendingEntry) :
    (g.claimLoop entries stream consumer now minIdle rest).1.lastDelivered = g.lastDelivered :=
  claimLoop_induction (P := fun g' _ => g'.lastDelivered = g.lastDelivered)
    (fun _ _ _ _ h => h) (fun _ _ _ _ _ _ _ h => h) rest rfl

theorem lastDelivered_ackLoop (ids : List StreamEntryId) :
    (g.ackLoop ids).1.lastDelivered = g.lastDelivered :=
  ackLoop_induction (Q := fun g' _ => g'.lastDelivered = g.lastDelivered) ids
    (fun _ _ _ _ _ _ h => h) rfl

end Group

end RedisStreams
