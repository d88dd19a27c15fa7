import FastapiBoilerplate.Ws.Limiter
import FastapiBoilerplate.Ws.Protocol
import FastapiBoilerplate.Ws.Rooms

/-!
# A connection and what it does with an inbound frame

`src/ws/connection.py`, the part that handles one message: `_on_message`, `_admit`, `_dispatch` and
the handlers. It is synchronous, so one call is one step of the process; the connections of the
process and its registry of rooms are a `Hub`.

The outbound queue holds one more than the buffer. `put_nowait` raises on a full queue; that there is
room whenever the code puts is what a queue carries along (`Outbound.room`).
-/

namespace Ws

open Lib

/-! ## The outbound queue -/

/-- `asyncio.Queue(maxsize)`. -/
structure Queue (α : Type) (maxsize : ℕ) where
  items : List α
  fits : items.length ≤ maxsize

namespace Queue

variable {α : Type} {maxsize : ℕ} {q : Queue α maxsize}

def qsize (q : Queue α maxsize) : ℕ := q.items.length

/-- `put_nowait`; none is `QueueFull`. -/
def putNowait (q : Queue α maxsize) (item : α) : Option (Queue α maxsize) :=
  if h : q.items.length < maxsize then
    some ⟨q.items ++ [item], by
      rw [List.length_append]
      exact h⟩
  else none

theorem putNowait_of_lt (h : q.qsize < maxsize) (item : α) :
    ∃ q', q.putNowait item = some q' ∧ q'.items = q.items ++ [item] :=
  ⟨_, dif_pos h, rfl⟩

theorem isSome_putNowait (h : q.qsize < maxsize) (item : α) : (q.putNowait item).isSome := by
  obtain ⟨q', hq', -⟩ := putNowait_of_lt h item
  rw [hq']
  rfl

theorem items_get_putNowait {item : α} (h : (q.putNowait item).isSome) :
    ((q.putNowait item).get h).items = q.items ++ [item] := by
  unfold putNowait at h ⊢
  split
  · rfl
  rename_i hfull
  rw [dif_neg hfull] at h
  cases h

end Queue

/-- What a connection may fall behind by, and what it has to send. The sentinel that stops the
    writer is none. -/
structure Outbound where
  buffer : ℕ
  queue : Queue (Option Text) (buffer + 1)
  terminated : Bool
  room : terminated = false → queue.qsize ≤ buffer

variable {o : Outbound} {payload : Text}

namespace Outbound

theorem qsize_lt (h : o.terminated = false) : o.queue.qsize < o.buffer + 1 :=
  Nat.lt_succ_of_le (o.room h)

/-- The sentinel, into the slot that is kept for it. -/
def stop (o : Outbound) (h : o.terminated = false) : Outbound :=
  { o with
    queue := (o.queue.putNowait none).get (Queue.isSome_putNowait (o.qsize_lt h) none)
    terminated := true
    room := nofun }

def push (o : Outbound) (payload : Text) (h : o.queue.qsize < o.buffer) : Outbound :=
  { o with
    queue := (o.queue.putNowait (some payload)).get
      (Queue.isSome_putNowait (Nat.lt_succ_of_lt h) _)
    room := fun _ => by
      rw [Queue.qsize, Queue.items_get_putNowait, List.length_append]
      exact h }

theorem items_push (h : o.queue.qsize < o.buffer) :
    (o.push payload h).queue.items = o.queue.items ++ [some payload] :=
  Queue.items_get_putNowait _

end Outbound

/-! ## Connections -/

/-- A connection, and the code and note it is to be closed with once they are set. -/
structure Connection where
  userId : Text
  maxRooms : ℕ
  maxMessageBytes : ℕ
  limiter : RateLimiter
  outbound : Outbound
  closing : Option (CloseCode × Text)
  received : ℕ
  lastMessage : ℚ
  maxRooms_pos : 1 ≤ maxRooms
  maxMessageBytes_pos : 1 ≤ maxMessageBytes
  buffer_pos : 1 ≤ outbound.buffer
  maxMessageBytes_le : (maxMessageBytes : ℚ) ≤ limiter.byteCapacity
  closing_of_terminated : outbound.terminated = true → closing.isSome

namespace Connection

/-- `_close_code` and `_close_note`. -/
def closeCode (c : Connection) : CloseCode × Text :=
  c.closing.getD (.goingAway, lit "server closing")

def close (c : Connection) (code : CloseCode) (note : Text) : Connection :=
  { c with
    closing := some (code, note)
    closing_of_terminated := fun _ => rfl }

/-- A text frame has come. -/
def receive (c : Connection) (now : ℚ) : Connection :=
  { c with received := c.received + 1, lastMessage := now }

@[simp] theorem limiter_receive (c : Connection) (now : ℚ) :
    (c.receive now).limiter = c.limiter := rfl

/-- The limiter has seen a frame. -/
def charge (c : Connection) (clock : Readings) (size : ℕ) : Connection :=
  { c with
    limiter := (c.limiter.offer clock size).2
    maxMessageBytes_le := by
      rw [RateLimiter.byteCapacity_offer]
      exact c.maxMessageBytes_le }

theorem open_of_not {c : Connection} (h : ¬ c.outbound.terminated = true) :
    c.outbound.terminated = false := Bool.eq_false_of_not_eq_true h

/-- `offer`: whether the payload was taken. A full buffer is the end of the connection. -/
def offer (c : Connection) (payload : Text) : Bool × Connection :=
  if hended : c.outbound.terminated = true then (false, c)
  else if hfull : c.outbound.buffer ≤ c.outbound.queue.qsize then
    (false, { c with
      outbound := c.outbound.stop (Bool.eq_false_of_not_eq_true hended)
      closing := some (.overflow, lit "too far behind; reconnect and refetch state")
      closing_of_terminated := fun _ => rfl })
  else
    (true, { c with
      outbound := c.outbound.push payload (Nat.lt_of_not_le hfull)
      closing_of_terminated := fun h => absurd h hended })

theorem items_offer {c : Connection} (h : (c.offer payload).2.outbound.terminated = false) :
    (c.offer payload).2.outbound.queue.items =
      c.outbound.queue.items ++ [some payload] := by
  unfold offer at h ⊢
  split at h
  · rename_i hended
    rw [hended] at h
    cases h
  split at h
  · cases h
  rename_i hended hfull
  rw [dif_neg hended, dif_neg hfull]
  exact Outbound.items_push (Nat.lt_of_not_le hfull)

end Connection

/-! ## The process -/

/-- How handling a frame raises. -/
inductive Raised
  | value
  | type
  | recursion
  | unicode
  | assertion
  deriving DecidableEq

def Raised.ofWrite : WriteError → Raised
  | .value => value
  | .type => type
  | .recursion => recursion

/-- The connections of a process, by what tells them apart, and its rooms. -/
structure Hub (μ : Type) where
  connections : μ → Connection
  rooms : RoomRegistry μ

/-- What `receive` returns. -/
inductive Inbound
  | disconnect
  | bytes
  | text (text : Text)

/-- What one call reads of its surroundings: the clocks. -/
structure Surroundings where
  now : ℚ
  readings : Readings
  sentAt : Text

namespace Hub

variable {μ : Type} [DecidableEq μ]

def update (hub : Hub μ) (member : μ) (c : Connection) : Hub μ :=
  { hub with connections := Function.update hub.connections member c }

@[simp] theorem connections_update_self (hub : Hub μ) (member : μ) (c : Connection) :
    (hub.update member c).connections member = c := Function.update_self ..

/-- What `offer` of a member does to the connections. -/
def offerTo (payload : Text) (connections : μ → Connection) (member : μ) :
    Bool × (μ → Connection) :=
  let (taken, c) := (connections member).offer payload
  (taken, Function.update connections member c)

section
variable {φ : Type} [ReadFloat φ] (py : Runtime φ) (self : μ)

/-- `send_soon`. -/
def sendSoon (hub : Hub μ) (message : Json φ) : Except Raised (Hub μ) :=
  match encodeServerMessage py message with
  | .error e => .error (Raised.ofWrite e)
  | .ok payload => .ok (hub.update self ((hub.connections self).offer payload).2)

def joinedMessage (room : Text) (members : ℕ) : Json φ :=
  .object
    [(lit "type", .str ServerMessageType.joined.value), (lit "room", .str room),
      (lit "members", .int members)]

/-- `_join`. -/
def join (hub : Hub μ) (room : Text) : Except Raised (Hub μ) :=
  let current := hub.rooms.roomsOf self
  let maxRooms := (hub.connections self).maxRooms
  if room ∉ current ∧ maxRooms ≤ current.length then
    hub.sendSoon py self (errorMessage py .roomLimitReached
      (lit "This connection may be in at most " ++ decimal maxRooms ++ lit " rooms.") none)
  else
    let (members, rooms) := hub.rooms.join room self
    sendSoon py self { hub with rooms := rooms } (joinedMessage room members)

variable [Unicode]

def leftMessage (room : Text) : Json φ :=
  .object [(lit "type", .str ServerMessageType.left.value), (lit "room", .str room)]

/-- `_leave`. -/
def leave (hub : Hub μ) (room : Text) : Except Raised (Hub μ) :=
  match hub.rooms.leave room self with
  | (false, rooms) =>
    sendSoon py self { hub with rooms := rooms } (errorMessage py .notInRoom
      (lit "This connection is not in " ++ reprText room ++ lit ".") none)
  | (true, rooms) =>
    sendSoon py self { hub with rooms := rooms } (leftMessage room)

/-- The body that `_publish` sends to the room. -/
def body (hub : Hub μ) (sentAt room : Text) (data : Json φ) : Json φ :=
  .object
    [(lit "type", .str ServerMessageType.message.value), (lit "room", .str room),
      (lit "from", .str (hub.connections self).userId), (lit "sent_at", .str sentAt),
      (lit "data", data)]

/-- `_publish`. Only a `ValueError` of the encoder is caught. -/
def publish (hub : Hub μ) (sentAt room : Text) (data : Json φ) : Except Raised (Hub μ) :=
  if !hub.rooms.contains room self then
    hub.sendSoon py self (errorMessage py .notInRoom
      (lit "Join " ++ reprText room ++ lit " before publishing to it.") none)
  else
    match encodeServerMessage py (hub.body self sentAt room data) with
    | .error .value =>
      hub.sendSoon py self (errorMessage py .invalidField
        (lit "Payload cannot be serialised: " ++ py.notWritable (hub.body self sentAt room data))
        none)
    | .error e => .error (Raised.ofWrite e)
    | .ok payload =>
      let (_, connections, rooms) :=
        hub.rooms.broadcast (offerTo payload) room (some self) hub.connections
      .ok { connections := connections, rooms := rooms }

def pongMessage : Json φ := .object [(lit "type", .str ServerMessageType.pong.value)]

/-- `_dispatch`. A message of another type than `ping` names a room. -/
def dispatch (hub : Hub μ) (sentAt : Text) (message : ClientMessage φ) : Except Raised (Hub μ) :=
  match message.type, message.room.map validateRoomName with
  | .ping, _ => hub.sendSoon py self pongMessage
  | _, some (.error text) => hub.sendSoon py self (errorMessage py .invalidRoom text none)
  | .join, some (.ok room) => hub.join py self room
  | .leave, some (.ok room) => hub.leave py self room
  | .publish, some (.ok room) => hub.publish py self sentAt room message.data
  | _, none => .error .assertion

/-- `_admit`, from the decoder on. -/
def handle (hub : Hub μ) (sentAt text : Text) : Except Raised (Hub μ) :=
  match decodeClientMessage py text (hub.connections self).maxMessageBytes with
  | .error (.malformed code message) => hub.sendSoon py self (errorMessage py code message none)
  | .error .recursion => .error .recursion
  | .error .unicode => .error .unicode
  | .ok message => hub.dispatch py self sentAt message

def rateExceeded : Text := lit "Message rate exceeded; this message was not processed."

/-- `_admit`. -/
def admission (hub : Hub μ) (around : Surroundings) (text : Text) : Except Raised (Bool × Hub μ) :=
  match utf8Encode text with
  | none => .error .unicode
  | some bytes =>
    let c := hub.connections self
    let (decision, _) := c.limiter.offer around.readings bytes.length
    let hub := hub.update self (c.charge around.readings bytes.length)
    if !decision.allowed then
      if decision.disconnect then
        .ok (false, hub.update self ((hub.connections self).close .rateLimited
          (lit "too many messages; slow down before reconnecting")))
      else do
        let hub ← hub.sendSoon py self
          (errorMessage py .rateLimited rateExceeded (some decision.retryAfter))
        return (true, hub)
    else do
      let hub ← hub.handle py self around.sentAt text
      return (true, hub)

/-- `_on_message`. -/
def onMessage (hub : Hub μ) (around : Surroundings) (message : Inbound) :
    Except Raised (Bool × Hub μ) :=
  let c := hub.connections self
  match message with
  | .disconnect => .ok (false, hub.update self (c.close .goingAway (lit "client disconnected")))
  | .bytes =>
    .ok (false, hub.update self (c.close .protocolError
      (lit "binary frames are not accepted; send JSON text")))
  | .text text => do
    let (going, hub) ← (hub.update self (c.receive around.now)).admission py self around text
    if !going then return (false, hub)
    return (!(hub.connections self).outbound.terminated, hub)

end

end Hub

end Ws
