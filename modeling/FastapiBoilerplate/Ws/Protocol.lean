import FastapiBoilerplate.Lib.JsonText
import Mathlib.Algebra.Order.Field.Rat

/-!
# The frames of a WebSocket connection

`src/ws/protocol.py`: what a client may send, how it is decoded, and how an answer is encoded. What
the interpreter decides is a `Runtime`: how deep `json` can go, how a wait becomes a float, and the
texts of `json`'s own errors.

The decoder raises `MalformedMessage` with a code to answer with, and lets `RecursionError` through:
it is no `ValueError`.
-/

namespace Ws

open Lib

/-- What is at least this is infinite as a float. -/
def floatLimit : ℚ := 2 ^ 1024 - 2 ^ 970

theorem floatLimit_pos : 0 < floatLimit := by decide +kernel

/-- What the interpreter decides. -/
structure Runtime (φ : Type) [ReadFloat φ] where
  /-- Levels that `json.loads` and `json.dumps` can go down. -/
  loadsLimit : ℕ
  dumpsLimit : ℕ
  /-- Enough for an object of strings and numbers. -/
  dumpsLimit_pos : 0 < dumpsLimit
  /-- `str(exc)`, of the `ValueError` for a text that is not JSON. -/
  notJson : Text → Text
  /-- `str(exc)`, of the `ValueError` for a value that cannot be written. -/
  notWritable : Json φ → Text
  /-- `round(wait, 3)`. -/
  rounded : WithTop ℚ → φ
  finite_rounded : ∀ wait : WithTop ℚ,
    PyFloat.finite (rounded wait) = true ↔ wait < (floatLimit : WithTop ℚ)

inductive CloseCode
  | goingAway
  | internalError
  | protocolError
  | tokenExpired
  | idleTimeout
  | rateLimited
  | overflow

inductive ClientMessageType
  | join
  | leave
  | publish
  | ping
  deriving DecidableEq

def ClientMessageType.value : ClientMessageType → Text
  | join => lit "join"
  | leave => lit "leave"
  | publish => lit "publish"
  | ping => lit "ping"

/-- `ClientMessageType(text)`; none is `ValueError`. -/
def ClientMessageType.ofValue (text : Text) : Option ClientMessageType :=
  [join, leave, publish, ping].find? fun type => type.value = text

inductive ServerMessageType
  | joined
  | left
  | message
  | pong
  | error

def ServerMessageType.value : ServerMessageType → Text
  | joined => lit "joined"
  | left => lit "left"
  | message => lit "message"
  | pong => lit "pong"
  | error => lit "error"

inductive ErrorCode
  | malformedMessage
  | unknownType
  | invalidField
  | invalidRoom
  | notInRoom
  | roomLimitReached
  | rateLimited
  | messageTooLarge

def ErrorCode.value : ErrorCode → Text
  | malformedMessage => lit "malformed_message"
  | unknownType => lit "unknown_type"
  | invalidField => lit "invalid_field"
  | invalidRoom => lit "invalid_room"
  | notInRoom => lit "not_in_room"
  | roomLimitReached => lit "room_limit_reached"
  | rateLimited => lit "rate_limited"
  | messageTooLarge => lit "message_too_large"

variable {φ : Type}

structure ClientMessage (φ : Type) where
  type : ClientMessageType
  room : Option Text
  data : Json φ

/-- How `decode_client_message` fails: `MalformedMessage`, or what `json` or the encoder raises. -/
inductive DecodeError
  | malformed (code : ErrorCode) (message : Text)
  | recursion
  | unicode

/-- `type(value).__name__`. -/
def typeName : Json φ → Text
  | .null => lit "NoneType"
  | .bool _ => lit "bool"
  | .int _ => lit "int"
  | .float _ => lit "float"
  | .str _ => lit "str"
  | .array _ => lit "list"
  | .object _ => lit "dict"
  | .foreign => lit "object"

section
variable [Unicode] {message : ClientMessage φ} {payload : Json φ} {e : DecodeError}

/-- The fields of a message, from the object on. -/
def readFields (payload : Json φ) : Except DecodeError (ClientMessage φ) :=
  match payload with
  | .object fields =>
    match fields.lookup (lit "type") with
    | some (.str rawType) =>
      match ClientMessageType.ofValue rawType with
      | none =>
        .error (.malformed .unknownType (lit "Unknown type " ++ reprText rawType ++
          lit "; expected one of join, leave, ping, publish."))
      | some .ping => .ok ⟨.ping, none, .null⟩
      | some type =>
        match fields.lookup (lit "room") with
        | some (.str room) =>
          if type = .publish then
            match fields.lookup (lit "data") with
            | some data => .ok ⟨type, some room, data⟩
            | none => .error (.malformed .invalidField (lit "publish requires a 'data' field."))
          else .ok ⟨type, some room, .null⟩
        | _ =>
          .error (.malformed .invalidField (type.value ++ lit " requires a string 'room'."))
    | _ => .error (.malformed .malformedMessage (lit "Message is missing a string 'type'."))
  | payload =>
    .error (.malformed .malformedMessage
      (lit "Message must be a JSON object, got " ++ typeName payload ++ lit "."))

/-- An object is refused with a code to answer with. -/
theorem readFields_eq_error (h : readFields payload = .error e) :
    ∃ code message, e = .malformed code message := by
  unfold readFields at h
  repeat' split at h
  all_goals cases h
  all_goals exact ⟨_, _, rfl⟩

/-- A message that is no `ping` names a room, and its data is of the object that was read. -/
theorem readFields_eq_ok (h : readFields payload = .ok message) (hplain : payload.Plain) :
    message.data.Plain ∧ (message.type = .ping ∨ message.room.isSome) := by
  unfold readFields at h
  cases hplain with
  | object hfields =>
    dsimp only at h
    repeat' split at h
    all_goals cases h
    · exact ⟨.null, .inl rfl⟩
    · rename_i data hdata
      obtain ⟨before, behind, rfl, -⟩ := List.lookup_eq_some_iff.mp hdata
      exact ⟨hfields _ (List.mem_append_right before (List.mem_cons_self ..)), .inr rfl⟩
    · exact ⟨.null, .inr rfl⟩
  | _ => cases h

variable [ReadFloat φ] (py : Runtime φ)

/-- `decode_client_message`, of a limit that is positive. The hook for constants refuses them
    all. -/
def decodeClientMessage (raw : Text) (maxBytes : ℕ) : Except DecodeError (ClientMessage φ) :=
  match utf8Encode raw with
  | none => .error .unicode
  | some bytes =>
    if maxBytes < bytes.length then
      .error (.malformed .messageTooLarge (lit "Message is " ++ decimal bytes.length ++
        lit " bytes; the limit is " ++ decimal maxBytes ++ lit "."))
    else
      match Json.loads (fun _ => none) py.loadsLimit raw with
      | .ok payload => readFields payload
      | .error .value =>
        .error (.malformed .malformedMessage (lit "Message is not valid JSON: " ++ py.notJson raw))
      | .error .recursion => .error .recursion
      | .error (.constant literal) =>
        .error (.malformed .malformedMessage (literal ++
          lit " is not accepted: it is not JSON any other language's parser will read, " ++
          lit "so it is refused here rather than re-emitted."))

variable {py} {raw : Text} {maxBytes : ℕ} {bytes : Bytes}

theorem decodeClientMessage_eq_ok (h : decodeClientMessage py raw maxBytes = .ok message) :
    message.data.Plain ∧ (message.type = .ping ∨ message.room.isSome) := by
  unfold decodeClientMessage at h
  split at h
  · cases h
  split at h
  · cases h
  split at h
  · rename_i payload hpayload
    exact readFields_eq_ok h (Json.plain_of_loads _ hpayload)
  all_goals cases h

/-- How the decoder raises on a text that can be encoded: `MalformedMessage`, or the
    `RecursionError` of `json`, if the text is not too long for it to be asked. -/
theorem decodeClientMessage_eq_error (hbytes : utf8Encode raw = some bytes)
    (h : decodeClientMessage py raw maxBytes = .error e) :
    (∃ code message, e = .malformed code message) ∨
      e = .recursion ∧ bytes.length ≤ maxBytes ∧
        Json.loads (fun _ => (none : Option φ)) py.loadsLimit raw = .error .recursion := by
  unfold decodeClientMessage at h
  rw [hbytes] at h
  dsimp only at h
  split at h
  · cases h
    exact .inl ⟨_, _, rfl⟩
  rename_i hshort
  split at h
  · exact .inl (readFields_eq_error h)
  · cases h
    exact .inl ⟨_, _, rfl⟩
  · rename_i hloads
    cases h
    exact .inr ⟨rfl, Nat.not_lt.mp hshort, hloads⟩
  · cases h
    exact .inl ⟨_, _, rfl⟩

theorem decodeClientMessage_of_recursion (hbytes : utf8Encode raw = some bytes)
    (hshort : bytes.length ≤ maxBytes)
    (hloads : Json.loads (fun _ => (none : Option φ)) py.loadsLimit raw = .error .recursion) :
    decodeClientMessage py raw maxBytes = .error .recursion := by
  unfold decodeClientMessage
  rw [hbytes]
  dsimp only
  rw [if_neg (Nat.not_lt.mpr hshort), hloads]

end

section
variable [ReadFloat φ] (py : Runtime φ)

/-- `encode_server_message`. -/
def encodeServerMessage (message : Json φ) : Except WriteError Text :=
  message.write py.dumpsLimit

/-- `error_message`. -/
def errorMessage (code : ErrorCode) (message : Text) (retryAfter : Option (WithTop ℚ)) : Json φ :=
  .object ([(lit "type", .str ServerMessageType.error.value), (lit "code", .str code.value),
      (lit "message", .str message)] ++
    match retryAfter with
    | some wait => [(lit "retry_after", .float (py.rounded wait))]
    | none => [])

theorem returns_encode {fields : List (Text × Json φ)} :
    Returns (encodeServerMessage py (.object fields)) ↔
      ∀ field ∈ fields, Returns (field.2.write (py.dumpsLimit - 1)) := by
  have hlimit : py.dumpsLimit = py.dumpsLimit - 1 + 1 := (Nat.sub_add_cancel py.dumpsLimit_pos).symm
  rw [encodeServerMessage, hlimit, Json.returns_write_object]
  rfl

theorem returns_encode_error (code : ErrorCode) (message : Text) :
    Returns (encodeServerMessage py (errorMessage py code message none)) := by
  rw [errorMessage, returns_encode]
  simp [Json.returns_write_str]

theorem returns_encode_wait (code : ErrorCode) (message : Text) (wait : WithTop ℚ) :
    Returns (encodeServerMessage py (errorMessage py code message (some wait))) ↔
      wait < (floatLimit : WithTop ℚ) := by
  rw [errorMessage, returns_encode, ← py.finite_rounded]
  simp [Json.returns_write_str, Json.returns_write_float]

end

end Ws
