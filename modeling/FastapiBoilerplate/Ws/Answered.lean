import FastapiBoilerplate.Ws.Connection

/-!
# An inbound text frame is answered

Whatever `_on_message` returns for a text frame is an answer (`handled_of_handle`): the connection
is to be closed, an error has been queued for the sender, or the message has been processed. So the
question is when it returns at all, and there are three ways in which it does not:

* a frame is rejected, the violation budget is not spent, and the wait that the sender is to be told
  is no finite float, so that the error itself cannot be encoded. Every frame beyond the byte burst
  is such a frame;
* an admitted frame nests deeper than `json.loads` can go: `RecursionError` is no `ValueError`;
* the payload of a publish nests deeper than `json.dumps` can go.

`onMessage_handled_iff` says that there are no others.
-/

namespace Ws

open Lib

namespace Hub

variable {μ : Type} [DecidableEq μ] {φ : Type} [ReadFloat φ] (py : Runtime φ) (self : μ)

/-! ## Answers -/

/-- A message has been queued for the connection, in a text that can be sent. -/
def Replied (hub hub' : Hub μ) (message : Json φ) : Prop :=
  ∃ frame, encodeServerMessage py message = .ok frame ∧ (utf8Encode frame).isSome ∧
    (hub'.connections self).outbound.queue.items =
      (hub.connections self).outbound.queue.items ++ [some frame]

/-- The message has had its effect. -/
def Processed (hub : Hub μ) (sentAt : Text) (message : ClientMessage φ) (hub' : Hub μ) : Prop :=
  match message.type, message.room with
  | .ping, _ => hub'.rooms = hub.rooms ∧ Replied py self hub hub' pongMessage
  | .join, some room =>
    hub'.rooms = (hub.rooms.join room self).2 ∧
      Replied py self hub hub' (joinedMessage room (hub.rooms.join room self).1)
  | .leave, some room =>
    hub.rooms.contains room self = true ∧ hub'.rooms = (hub.rooms.leave room self).2 ∧
      Replied py self hub hub' (leftMessage room)
  | .publish, some room =>
    hub.rooms.contains room self = true ∧
      ∃ payload, encodeServerMessage py (hub.body self sentAt room message.data) = .ok payload ∧
        (hub'.connections, hub'.rooms) =
          (hub.rooms.broadcast (offerTo payload) room (some self) hub.connections).2
  | _, none => False

/-- The process once a text frame has been counted and charged. -/
def charged (hub : Hub μ) (around : Surroundings) (size : ℕ) : Hub μ :=
  hub.update self (((hub.connections self).receive around.now).charge around.readings size)

variable [Unicode]

/-- What `_on_message` may do with a text frame. -/
inductive Handled (hub : Hub μ) (around : Surroundings) (text : Text) :
    Except Raised (Bool × Hub μ) → Prop
  | closed {hub' : Hub μ} (hclosing : (hub'.connections self).closing.isSome) :
      Handled hub around text (.ok (false, hub'))
  | refused {hub' : Hub μ} (code : ErrorCode) (message : Text) (retryAfter : Option (WithTop ℚ))
      (hreply : Replied py self hub hub' (errorMessage py code message retryAfter)) :
      Handled hub around text (.ok (true, hub'))
  | processed {hub' : Hub μ} {bytes : Bytes} {message : ClientMessage φ}
      (hbytes : utf8Encode text = some bytes)
      (hdecode : decodeClientMessage py text (hub.connections self).maxMessageBytes = .ok message)
      (hprocessed : Processed py self (hub.charged self around bytes.length) around.sentAt message
        hub') : Handled hub around text (.ok (true, hub'))

variable {py self} {hub hub' : Hub μ} {around : Surroundings} {text sentAt room : Text}
  {data : Json φ}

/-- A connection that has ended has a close code, so that only the others are to be looked at. -/
theorem handled_of_running
    (h : (hub'.connections self).outbound.terminated = false →
      Handled py self hub around text (.ok (true, hub'))) :
    Handled py self hub around text
      (.ok (!(hub'.connections self).outbound.terminated, hub')) := by
  cases hended : (hub'.connections self).outbound.terminated with
  | true => exact .closed ((hub'.connections self).closing_of_terminated hended)
  | false => exact h hended

omit [Unicode] in
/-- What `send_soon` does, if it returns, to a connection that goes on. -/
theorem replied_of_sendSoon {message : Json φ} (h : hub.sendSoon py self message = .ok hub')
    (hrunning : (hub'.connections self).outbound.terminated = false) :
    Replied py self hub hub' message := by
  unfold sendSoon at h
  split at h
  · cases h
  rename_i frame hframe
  cases h
  rw [connections_update_self] at hrunning
  refine ⟨frame, hframe, ((Json.gives_write _ _).of_ok hframe).isSome_utf8Encode, ?_⟩
  rw [connections_update_self]
  exact Connection.items_offer hrunning

omit [Unicode] in
theorem rooms_of_sendSoon {message : Json φ} (h : hub.sendSoon py self message = .ok hub') :
    hub'.rooms = hub.rooms := by
  unfold sendSoon at h
  split at h <;> cases h
  rfl

/-! ## What returns is an answer -/

/-- An error has been queued, or the message has been processed. -/
def Answer (py : Runtime φ) (self : μ) (hub : Hub μ) (sentAt : Text) (message : ClientMessage φ)
    (hub' : Hub μ) : Prop :=
  (∃ code text, Replied py self hub hub' (errorMessage py code text none)) ∨
    Processed py self hub sentAt message hub'

section
variable (hrunning : (hub'.connections self).outbound.terminated = false)
include hrunning

omit [Unicode] in
theorem answer_of_join (h : hub.join py self room = .ok hub') :
    Answer py self hub sentAt ⟨.join, some room, data⟩ hub' := by
  unfold join at h
  dsimp only at h
  split at h
  · exact .inl ⟨_, _, replied_of_sendSoon h hrunning⟩
  · have hreply := replied_of_sendSoon h hrunning
    exact .inr ⟨rooms_of_sendSoon h, hreply⟩

theorem answer_of_leave (h : hub.leave py self room = .ok hub') :
    Answer py self hub sentAt ⟨.leave, some room, data⟩ hub' := by
  unfold leave at h
  split at h
  · have hreply := replied_of_sendSoon h hrunning
    exact .inl ⟨_, _, hreply⟩
  rename_i rooms hleave
  have hcontains : hub.rooms.contains room self = true := by
    unfold RoomRegistry.leave at hleave
    split at hleave
    · exact decide_eq_true ‹_›
    · cases hleave
  have hreply := replied_of_sendSoon h hrunning
  refine .inr ⟨hcontains, ?_, hreply⟩
  rw [hleave]
  exact rooms_of_sendSoon h

theorem answer_of_publish (h : hub.publish py self sentAt room data = .ok hub') :
    Answer py self hub sentAt ⟨.publish, some room, data⟩ hub' := by
  unfold publish at h
  split at h
  · exact .inl ⟨_, _, replied_of_sendSoon h hrunning⟩
  rename_i hcontains
  split at h
  · exact .inl ⟨_, _, replied_of_sendSoon h hrunning⟩
  · cases h
  rename_i payload hpayload
  cases h
  exact .inr ⟨by simpa using hcontains, payload, hpayload, rfl⟩

theorem answer_of_dispatch {message : ClientMessage φ}
    (h : hub.dispatch py self sentAt message = .ok hub') :
    Answer py self hub sentAt message hub' := by
  obtain ⟨type, room, data⟩ := message
  have hnamed {name : Text} (h : room.map validateRoomName = some (.ok name)) :
      room = some name := by
    obtain ⟨name, rfl, hvalid⟩ := Option.map_eq_some_iff.mp h
    rw [eq_of_validateRoomName hvalid]
  unfold dispatch at h
  dsimp only at h
  split at h
  · exact .inr ⟨rooms_of_sendSoon h, replied_of_sendSoon h hrunning⟩
  · exact .inl ⟨_, _, replied_of_sendSoon h hrunning⟩
  · obtain rfl := hnamed ‹_›
    exact answer_of_join hrunning h
  · obtain rfl := hnamed ‹_›
    exact answer_of_leave hrunning h
  · obtain rfl := hnamed ‹_›
    exact answer_of_publish hrunning h
  · cases h

end

variable {message : ClientMessage φ} {bytes : Bytes}

/-! ## The three ways of a text frame -/

/-- What `_on_message` returns if the connection is not to be closed for its rate. -/
def going (self : μ) (hub : Hub μ) : Bool × Hub μ :=
  (!(hub.connections self).outbound.terminated, hub)

omit [Unicode] in
/-- A frame is charged to the connection that has received it. -/
theorem charged_eq (hub : Hub μ) (around : Surroundings) (size : ℕ) :
    (hub.update self ((hub.connections self).receive around.now)).update self
      (((hub.connections self).receive around.now).charge around.readings size) =
        hub.charged self around size := by
  simp only [charged, update, Function.update_idem]

section
variable {bytes : Bytes} (hbytes : utf8Encode text = some bytes)

include hbytes

theorem onMessage_of_affordable
    (h : (hub.connections self).limiter.Affordable around.readings bytes.length) :
    hub.onMessage py self around (.text text) =
      going self <$> (hub.charged self around bytes.length).handle py self around.sentAt text := by
  have hdecision := RateLimiter.offer_of_affordable h
  unfold onMessage admission
  simp only [hbytes, connections_update_self, charged_eq, Connection.limiter_receive, hdecision]
  cases (hub.charged self around bytes.length).handle py self around.sentAt text <;> rfl

section

variable (h : ¬ (hub.connections self).limiter.Affordable around.readings bytes.length)

include h

theorem onMessage_of_rejected
    (hleft : (hub.connections self).limiter.violations + 1 <
      (hub.connections self).limiter.maxViolations) :
    hub.onMessage py self around (.text text) =
      going self <$> (hub.charged self around bytes.length).sendSoon py self
        (errorMessage py .rateLimited rateExceeded (some
          (max ((hub.connections self).limiter.messages.retryAfter around.readings.messages 1).1
            ((hub.connections self).limiter.bytes.retryAfter around.readings.bytes
              bytes.length).1))) := by
  have hdecision := RateLimiter.offer_of_not_affordable h
  rw [decide_eq_false (Nat.not_le.mpr hleft)] at hdecision
  unfold onMessage admission
  simp only [hbytes, connections_update_self, charged_eq, Connection.limiter_receive, hdecision]
  generalize (hub.charged self around bytes.length).sendSoon py self _ = sent
  cases sent <;> rfl

theorem onMessage_of_disconnect (py : Runtime φ)
    (hspent : (hub.connections self).limiter.maxViolations ≤
      (hub.connections self).limiter.violations + 1) :
    ∃ hub', hub.onMessage py self around (.text text) = .ok (false, hub') ∧
      (hub'.connections self).closing.isSome := by
  have hdecision := RateLimiter.offer_of_not_affordable h
  rw [decide_eq_true hspent] at hdecision
  unfold onMessage admission
  simp only [hbytes, connections_update_self, charged_eq, Connection.limiter_receive, hdecision]
  refine ⟨_, rfl, ?_⟩
  rw [connections_update_self]
  rfl

end

end

/-! ## What returns is an answer, for a whole frame -/

omit [Unicode] in
theorem Replied.of_charged {size : ℕ} {message : Json φ}
    (h : Replied py self (hub.charged self around size) hub' message) :
    Replied py self hub hub' message := by
  obtain ⟨frame, hencode, hsend, hitems⟩ := h
  rw [charged, connections_update_self] at hitems
  exact ⟨frame, hencode, hsend, hitems⟩

theorem handled_of_handle (hbytes : utf8Encode text = some bytes)
    (h : (hub.charged self around bytes.length).handle py self around.sentAt text = .ok hub') :
    Handled py self hub around text (.ok (going self hub')) := by
  apply handled_of_running
  intro hrunning
  unfold handle at h
  split at h
  · exact .refused _ _ _ (replied_of_sendSoon h hrunning).of_charged
  · cases h
  · cases h
  rename_i message hdecode
  rw [charged, connections_update_self] at hdecode
  rcases answer_of_dispatch hrunning h with ⟨code, text, hreply⟩ | hprocessed
  · exact .refused code text none hreply.of_charged
  · exact .processed hbytes hdecode hprocessed

/-- Whatever `_on_message` returns for a text frame is an answer. -/
theorem handled_iff_returns (hbytes : utf8Encode text = some bytes) :
    Handled py self hub around text (hub.onMessage py self around (.text text)) ↔
      Returns (hub.onMessage py self around (.text text)) := by
  constructor
  · intro h
    cases h' : hub.onMessage py self around (.text text) with
    | error =>
      rw [h'] at h
      cases h
    | ok result => exact returns_ok result
  · rintro ⟨result, hresult⟩
    rw [hresult]
    by_cases haffordable :
        (hub.connections self).limiter.Affordable around.readings bytes.length
    · rw [onMessage_of_affordable hbytes haffordable] at hresult
      obtain ⟨hub', hhandle, rfl⟩ := map_eq_ok.mp hresult
      exact handled_of_handle hbytes hhandle
    by_cases hspent : (hub.connections self).limiter.maxViolations ≤
        (hub.connections self).limiter.violations + 1
    · obtain ⟨hub', hclose, hclosing⟩ := onMessage_of_disconnect hbytes haffordable py hspent
      rw [hclose] at hresult
      cases hresult
      exact .closed hclosing
    · rw [onMessage_of_rejected hbytes haffordable (Nat.lt_of_not_le hspent)] at hresult
      obtain ⟨hub', hsend, rfl⟩ := map_eq_ok.mp hresult
      refine handled_of_running fun hrunning => ?_
      exact .refused _ _ _ (replied_of_sendSoon hsend hrunning).of_charged

/-! ## When it returns -/

omit [Unicode] in
theorem returns_sendSoon {message : Json φ} :
    Returns (hub.sendSoon py self message) ↔ Returns (encodeServerMessage py message) := by
  unfold sendSoon
  split
  · rename_i e he
    rw [he]
    exact iff_of_false (not_returns_error _) (not_returns_error _)
  · rename_i payload hpayload
    rw [hpayload]
    exact iff_of_true (returns_ok _) (returns_ok _)

omit [Unicode] in
theorem returns_sendSoon_error (code : ErrorCode) (message : Text) :
    Returns (hub.sendSoon py self (errorMessage py code message none)) :=
  returns_sendSoon.mpr (returns_encode_error py code message)

omit [Unicode] in
theorem returns_join (hcount : (hub.rooms.join room self).1 < 10 ^ maxStrDigits) :
    Returns (hub.join py self room) := by
  unfold join
  dsimp only
  split
  · exact returns_sendSoon_error _ _
  · rw [returns_sendSoon, joinedMessage, returns_encode]
    simp [Json.returns_write_str, Json.returns_write_nat hcount]

theorem returns_leave : Returns (hub.leave py self room) := by
  unfold leave
  split
  · exact returns_sendSoon_error _ _
  · rw [returns_sendSoon, leftMessage, returns_encode]
    simp [Json.returns_write_str]

omit [DecidableEq μ] [Unicode] in
/-- Nothing but the data keeps the body of a publish from being encoded. -/
theorem encode_body_eq_error {e : WriteError} :
    encodeServerMessage py (hub.body self sentAt room data) = .error e ↔
      data.write (py.dumpsLimit - 1) = .error e := by
  obtain ⟨limit, hlimit⟩ := Nat.exists_eq_add_of_lt py.dumpsLimit_pos
  rw [encodeServerMessage, hlimit, body, Nat.zero_add, Nat.add_sub_cancel]
  simp only [Json.write, Json.writeWith, Json.descend, Json.writeFields, ok_bind]
  cases data.writeWith Json.quotedAscii (some limit) with
  | error => exact Iff.rfl
  | ok => exact iff_of_false (by rintro ⟨⟩) (by rintro ⟨⟩)

theorem returns_publish (hplain : data.Plain) :
    Returns (hub.publish py self sentAt room data) ↔
      (hub.rooms.contains room self = true →
        data.write (py.dumpsLimit - 1) ≠ .error .recursion) := by
  unfold publish
  split
  · rename_i hout
    refine iff_of_true (returns_sendSoon_error _ _) fun hin => ?_
    rw [hin] at hout
    cases hout
  rename_i hin
  rw [forall_prop_of_true (by simpa using hin)]
  split
  · rename_i herror
    rw [encode_body_eq_error] at herror
    refine iff_of_true (returns_sendSoon_error _ _) ?_
    rw [herror]
    exact nofun
  · rename_i e hvalue herror
    rw [encode_body_eq_error] at herror
    refine iff_of_false (not_returns_error _) fun hne => ?_
    have htype := (Json.gives_write _ data).of_error herror hplain
    cases e with
    | value => exact hvalue rfl
    | type => exact htype rfl
    | recursion => exact hne herror
  · rename_i payload hpayload
    refine iff_of_true (returns_ok _) fun herror => ?_
    have hbody := hpayload.symm.trans (encode_body_eq_error.mpr herror)
    cases hbody

/-- A publish that reaches a room carries data that `json.dumps` can go through. -/
def Sendable (py : Runtime φ) (self : μ) (hub : Hub μ) (message : ClientMessage φ) : Prop :=
  ∀ room, message.type = .publish → message.room = some room → validateRoomName room = .ok room →
    hub.rooms.contains room self = true →
      message.data.write (py.dumpsLimit - 1) ≠ .error .recursion

theorem returns_dispatch (hplain : message.data.Plain)
    (hroom : message.type = .ping ∨ message.room.isSome)
    (hcount : ∀ room, (hub.rooms.join room self).1 < 10 ^ maxStrDigits) :
    Returns (hub.dispatch py self sentAt message) ↔ Sendable py self hub message := by
  obtain ⟨type, room, data⟩ := message
  unfold dispatch
  dsimp only
  split
  · refine iff_of_true ?_ nofun
    rw [returns_sendSoon, pongMessage, returns_encode]
    simp [Json.returns_write_str]
  · rename_i text hinvalid
    refine iff_of_true (returns_sendSoon_error _ _) ?_
    intro room' _ hroom' hvalid
    cases hroom'
    rw [Option.map_some, hvalid] at hinvalid
    cases hinvalid
  · exact iff_of_true (returns_join (hcount _)) nofun
  · exact iff_of_true returns_leave nofun
  · rename_i room' hmap
    obtain ⟨name, rfl, hvalid⟩ := Option.map_eq_some_iff.mp hmap
    obtain rfl := eq_of_validateRoomName hvalid
    rw [returns_publish hplain]
    constructor
    · intro h room'' _ hroom'' _
      cases hroom''
      exact h
    · exact fun h => h room' rfl rfl hvalid
  · rename_i hother hnone
    rcases hroom with rfl | hsome
    · exact absurd rfl hother
    cases room with
    | none => cases hsome
    | some => cases hnone

theorem returns_handle (hbytes : utf8Encode text = some bytes)
    (hcount : ∀ room, (hub.rooms.join room self).1 < 10 ^ maxStrDigits) :
    Returns (hub.handle py self sentAt text) ↔
      (bytes.length ≤ (hub.connections self).maxMessageBytes →
        Json.loads (fun _ => (none : Option φ)) py.loadsLimit text ≠ .error .recursion) ∧
      ∀ message, decodeClientMessage py text (hub.connections self).maxMessageBytes = .ok message →
        Sendable py self hub message := by
  unfold handle
  cases hdecode : decodeClientMessage py text (hub.connections self).maxMessageBytes with
  | ok message =>
    obtain ⟨hplain, hroom⟩ := decodeClientMessage_eq_ok hdecode
    rw [returns_dispatch hplain hroom hcount]
    constructor
    · intro h
      refine ⟨fun hshort hloads => ?_, ?_⟩
      · rw [decodeClientMessage_of_recursion hbytes hshort hloads] at hdecode
        cases hdecode
      · rintro message' ⟨⟩
        exact h
    · exact fun h => h.2 message rfl
  | error =>
    rcases decodeClientMessage_eq_error hbytes hdecode with ⟨code, message, rfl⟩ | hrecursion
    · refine iff_of_true (returns_sendSoon_error code message) ⟨fun hshort hloads => ?_, nofun⟩
      rw [decodeClientMessage_of_recursion hbytes hshort hloads] at hdecode
      cases hdecode
    · obtain ⟨rfl, hshort, hloads⟩ := hrecursion
      exact iff_of_false (not_returns_error _) fun h => h.1 hshort hloads

/-- What a frame, the budget it finds and the interpreter must be like for the frame to be answered:
    if it is rejected while the violation budget lasts, what is missing of either budget is there
    after a time that is a float; if it is not, `json` can go through it. -/
structure Answerable (py : Runtime φ) (member : μ) (hub : Hub μ) (around : Surroundings) (text : Text)
    (size : ℕ) : Prop where
  wait : ¬ (hub.connections member).limiter.Affordable around.readings size →
    (hub.connections member).limiter.violations + 1 < (hub.connections member).limiter.maxViolations →
    (size : ℚ) ≤ (hub.connections member).limiter.byteCapacity ∧
      (1 - (hub.connections member).limiter.messages.tokensAt around.readings.messages) /
        (hub.connections member).limiter.messages.rate < floatLimit ∧
      (size - (hub.connections member).limiter.bytes.tokensAt around.readings.bytes) /
        (hub.connections member).limiter.bytes.rate < floatLimit
  read : (hub.connections member).limiter.Affordable around.readings size →
    size ≤ (hub.connections member).maxMessageBytes →
      Json.loads (fun _ => (none : Option φ)) py.loadsLimit text ≠ .error .recursion
  sent : (hub.connections member).limiter.Affordable around.readings size →
    ∀ message, decodeClientMessage py text (hub.connections member).maxMessageBytes = .ok message →
      Sendable py member hub message

theorem returns_onMessage (hbytes : utf8Encode text = some bytes)
    (hcount : ∀ room, (hub.rooms.join room self).1 < 10 ^ maxStrDigits) :
    Returns (hub.onMessage py self around (.text text)) ↔
      Answerable py self hub around text bytes.length := by
  by_cases haffordable : (hub.connections self).limiter.Affordable around.readings bytes.length
  · have hcharged : ∀ room, ((hub.charged self around bytes.length).rooms.join room self).1 <
        10 ^ maxStrDigits := hcount
    rw [onMessage_of_affordable hbytes haffordable, returns_map, returns_handle hbytes hcharged]
    rw [charged, connections_update_self]
    constructor
    · exact fun h => ⟨fun hnot => absurd haffordable hnot, fun _ => h.1, fun _ => h.2⟩
    · exact fun h => ⟨h.read haffordable, h.sent haffordable⟩
  by_cases hspent : (hub.connections self).limiter.maxViolations ≤
      (hub.connections self).limiter.violations + 1
  · obtain ⟨hub', hclose, -⟩ := onMessage_of_disconnect hbytes haffordable py hspent
    rw [hclose]
    refine iff_of_true (returns_ok _) ⟨fun _ hleft => ?_, fun h => ?_, fun h => ?_⟩
    · exact absurd hspent (Nat.not_le.mpr hleft)
    · exact absurd h haffordable
    · exact absurd h haffordable
  · have hleft := Nat.lt_of_not_le hspent
    rw [onMessage_of_rejected hbytes haffordable hleft, returns_map, returns_sendSoon,
      returns_encode_wait, max_lt_iff, TokenBucket.retryAfter_lt_iff _ _ _ floatLimit_pos,
      TokenBucket.retryAfter_lt_iff _ _ _ floatLimit_pos]
    constructor
    · rintro ⟨⟨-, hmessages⟩, hfits, hbytes⟩
      exact ⟨fun _ _ => ⟨hfits, hmessages, hbytes⟩, fun h => absurd h haffordable,
        fun h => absurd h haffordable⟩
    · intro h
      obtain ⟨hfits, hmessages, hbytes⟩ := h.wait haffordable hleft
      exact ⟨⟨(hub.connections self).limiter.one_le_burst, hmessages⟩, hfits, hbytes⟩

/-- A text frame is answered exactly when it is answerable. The texts are those that can be encoded;
    a room has fewer members than a list can have items. -/
theorem onMessage_handled_iff (py : Runtime φ) (self : μ) (hub : Hub μ) (around : Surroundings)
    (text : Text) (bytes : Bytes) (hbytes : utf8Encode text = some bytes)
    (hmembers : ∀ room, hub.rooms.memberCount room < 2 ^ 63) :
    Handled py self hub around text (hub.onMessage py self around (.text text)) ↔
      Answerable py self hub around text bytes.length := by
  rw [handled_iff_returns hbytes]
  apply returns_onMessage hbytes
  intro room
  have hsmall : 2 ^ 63 + 1 < 10 ^ maxStrDigits := by
    calc 2 ^ 63 + 1 < 10 ^ 20 := by norm_num
      _ ≤ 10 ^ maxStrDigits := Nat.pow_le_pow_right (by decide) (by decide)
  have hjoin := hub.rooms.join_le room self
  have hroom := hmembers room
  omega

end Hub

/-! ## A frame beyond the burst -/

namespace Hub

/-- A number that is exact, or infinite. All that are not infinite are written alike. -/
structure Exact where
  value : WithTop ℚ

instance : ReadFloat Exact where
  finite x := x.value < (floatLimit : WithTop ℚ)
  repr _ := lit "0.0"
  repr_chars _ _ := by
    have hchars : (lit "0.0").all (· ∈ lit "0123456789+-.e") = true := by decide +kernel
    simpa using hchars
  read _ := ⟨0⟩

def exactRuntime : Runtime Exact where
  loadsLimit := 100
  dumpsLimit := 100
  dumpsLimit_pos := by decide
  notJson _ := []
  notWritable _ := []
  rounded := Exact.mk
  finite_rounded _ := decide_eq_true_iff

/-- A bucket of one token a second. -/
def slowBucket (tokens : ℚ) (hnonneg : 0 ≤ tokens) (hle : tokens ≤ 1) : TokenBucket :=
  ⟨1, 1, tokens, 0, one_pos, one_pos, hnonneg, hle⟩

/-- A process of one connection, that may send one byte and be rejected once. -/
def narrowHub (tokens : ℚ) (hnonneg : 0 ≤ tokens) (hle : tokens ≤ 1) : Hub Unit where
  connections _ :=
    { userId := []
      maxRooms := 1
      maxMessageBytes := 1
      limiter := ⟨slowBucket tokens hnonneg hle, slowBucket 1 (hnonneg.trans hle) le_rfl, 2, 0,
        le_rfl, one_le_two⟩
      outbound := ⟨1, ⟨[], Nat.zero_le _⟩, false, fun _ => Nat.zero_le _⟩
      closing := none
      received := 0
      lastMessage := 0
      maxRooms_pos := le_rfl
      maxMessageBytes_pos := le_rfl
      buffer_pos := le_rfl
      maxMessageBytes_le := Nat.cast_one.le
      closing_of_terminated := nofun }
  rooms := ∅

def atZero : Surroundings := ⟨0, ⟨0, 0, 0, 0⟩, []⟩

theorem onMessage_handled_iff_rejected :
    letI : Unicode := .ascii
    (∀ room, (narrowHub 0 le_rfl zero_le_one).rooms.memberCount room < 2 ^ 63) ∧
      Handled exactRuntime () (narrowHub 0 le_rfl zero_le_one) atZero (lit "0")
        ((narrowHub 0 le_rfl zero_le_one).onMessage exactRuntime () atZero (.text (lit "0"))) := by
  let : Unicode := .ascii
  have hmembers : ∀ room, (narrowHub 0 le_rfl zero_le_one).rooms.memberCount room < 2 ^ 63 :=
    fun _ => Nat.two_pow_pos 63
  refine ⟨hmembers, ?_⟩
  refine (onMessage_handled_iff exactRuntime () _ atZero (lit "0") [0x30] (by decide +kernel)
    hmembers).mpr ⟨fun _ _ => by decide +kernel, fun h => ?_, fun h => ?_⟩
  · exact absurd h (by decide +kernel)
  · exact absurd h (by decide +kernel)

/-- Two bytes where one is the burst: the wait is infinite, and the error that says so cannot be
    encoded. -/
theorem onMessage_raises_beyond_burst :
    letI : Unicode := .ascii
    (utf8Encode (lit "12")).isSome ∧
      (narrowHub 1 zero_le_one le_rfl).onMessage exactRuntime () atZero (.text (lit "12")) =
        .error .value ∧
      ¬ Handled exactRuntime () (narrowHub 1 zero_le_one le_rfl) atZero (lit "12")
        ((narrowHub 1 zero_le_one le_rfl).onMessage exactRuntime () atZero
          (.text (lit "12"))) := by
  let : Unicode := .ascii
  have heffect : (fun _ => ()) <$> (narrowHub 1 zero_le_one le_rfl).onMessage exactRuntime ()
      atZero (.text (lit "12")) = .error .value := by decide +kernel
  generalize Hub.onMessage exactRuntime () _ _ _ = result at heffect ⊢
  cases result with
  | error =>
    cases heffect
    exact ⟨by decide +kernel, rfl, nofun⟩
  | ok => cases heffect

end Hub

end Ws
