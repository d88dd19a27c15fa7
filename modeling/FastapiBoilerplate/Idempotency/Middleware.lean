import Mathlib.Data.Rat.Defs

/-!
# The idempotency middleware, one request at a time

The parts of `src/middleware/idempotency.py` and `src/idempotency/base.py` that decide what
a keyed request is answered, and what its execution does to the store when it ends. They
are functions of one request; the stores and their interleavings are elsewhere.

An execution is the app talking ASGI into `capturing_send`: a start message, body chunks,
possibly neither, possibly out of order. `Capture` is the closure's five variables, and
`Capture.outcome` is the end of `_execute`: a release for everything that must not be
replayed, a completion otherwise. Bytes are lists of octets; header bytes are stored
latin-1 decoded and encoded again on replay, as the source has it.
-/

namespace Idempotency

/-- Clock readings and lifetimes, in seconds. -/
abbrev Time := ℚ

abbrev Bytes := List UInt8

/-! ## Records -/

/-- `StoredResponse`. -/
structure StoredResponse where
  statusCode : ℕ
  headers : List (String × String)
  body : Bytes
  deriving DecidableEq

/-- `IdempotencyRecord`: no response means reserved and not finished. -/
structure IdempotencyRecord where
  fingerprint : String
  response : Option StoredResponse := none
  deriving DecidableEq

/-! ## Errors -/

/-- An `AppException` as the edge renders it. -/
structure AppException where
  statusCode : ℕ
  errorCode : String
  message : String
  details : List (String × String) := []
  headers : List (String × String) := []
  deriving DecidableEq

def idempotencyKeyInProgressError (key : String) : AppException where
  statusCode := 409
  errorCode := "IDEMPOTENCY_KEY_IN_PROGRESS"
  message := "A request with this Idempotency-Key is still in progress."
  details := [("idempotency_key", key)]
  headers := [("Retry-After", "1")]

def idempotencyKeyReusedError (key : String) : AppException where
  statusCode := 422
  errorCode := "IDEMPOTENCY_KEY_REUSED"
  message := "This Idempotency-Key was already used for a different request."
  details := [("idempotency_key", key)]

def idempotencyStoreUnavailableError (message : String) (details : List (String × String) := []) :
    AppException where
  statusCode := 503
  errorCode := "IDEMPOTENCY_STORE_UNAVAILABLE"
  message := message
  details := details
  headers := [("Retry-After", "1")]

/-! ## Messages and the capture -/

/-- The ASGI messages an app sends. -/
inductive Message
  | responseStart (status : ℕ) (headers : List (Bytes × Bytes))
  | responseBody (body : Bytes) (moreBody : Bool)
  | other (type : String)
  deriving DecidableEq

/-- `str.encode` on the ASCII names and keys that reach a header. -/
def encode (s : String) : Bytes := s.toUTF8.toList

def decodeLatin1 (b : Bytes) : String := String.ofList (b.map fun x => Char.ofNat x.toNat)

def encodeLatin1 (s : String) : Bytes := s.toList.map fun c => UInt8.ofNat c.toNat

/-- `bytes.lower`. -/
def lower (b : Bytes) : Bytes := b.map fun x => if 65 ≤ x ∧ x ≤ 90 then x + 32 else x

/-- `IDEMPOTENCY_KEY_HEADER.lower().encode()`. -/
def keyHeader : Bytes := encode "idempotency-key"

/-- `IDEMPOTENCY_REPLAYED_HEADER.lower().encode()`. -/
def replayedHeader : Bytes := encode "idempotency-replayed"

def strippedResponseHeaders : List Bytes := [encode "set-cookie"]

def retryableStatuses : List ℕ := [408, 425, 429]

/-- The fields of `IdempotencyConfig` the answering and executing paths read. -/
structure IdempotencyConfig where
  maxResponseBodyBytes : ℕ := 1024 * 1024
  failOpen : Bool := false

/-- The variables `capturing_send` closes over. -/
structure Capture where
  statusCode : ℕ := 500
  headers : List (Bytes × Bytes) := []
  body : Bytes := []
  oversized : Bool := false
  finished : Bool := false
  deriving DecidableEq

/-- `capturing_send`: the capture afterwards, and the message forwarded to the client. -/
def capturingSend (cfg : IdempotencyConfig) (key : String) (c : Capture) :
    Message → Capture × Message
  | .responseStart status headers =>
    ({ c with statusCode := status, headers := headers },
      .responseStart status (headers ++ [(keyHeader, encode key)]))
  | .responseBody body moreBody =>
    let c :=
      if c.oversized then c
      else if cfg.maxResponseBodyBytes < (c.body ++ body).length then
        { c with oversized := true, body := [] }
      else { c with body := c.body ++ body }
    (if moreBody then c else { c with finished := true }, .responseBody body moreBody)
  | .other type => (c, .other type)

/-- The response a capture is stored as. -/
def Capture.stored (c : Capture) : StoredResponse where
  statusCode := c.statusCode
  headers := (c.headers.filter fun h => lower h.1 ∉ strippedResponseHeaders).map fun h =>
    (decodeLatin1 h.1, decodeLatin1 h.2)
  body := c.body

/-- What an execution does to its key when it ends. -/
inductive StoreOp
  | release
  | complete (record : IdempotencyRecord)
  deriving DecidableEq

/-- `_execute`, after the app returned. -/
def Capture.outcome (c : Capture) (fingerprint : String) : StoreOp :=
  if c.finished = false ∨ c.oversized = true ∨ 500 ≤ c.statusCode then .release
  else if c.statusCode ∈ retryableStatuses then .release
  else .complete ⟨fingerprint, some c.stored⟩

/-! ## Answering from a record -/

/-- What a request that does not execute is answered. -/
inductive Answer
  | sent (messages : List Message)
  | error (exc : AppException)
  deriving DecidableEq

/-- `_send_stored`. -/
def sendStored (stored : StoredResponse) (key : String) : List Message :=
  let headers := stored.headers.map fun h => (encodeLatin1 h.1, encodeLatin1 h.2)
  [.responseStart stored.statusCode
      (headers ++ [(keyHeader, encode key), (replayedHeader, encode "true")]),
    .responseBody stored.body false]

/-- `_handle_existing`. -/
def handleExisting (record : IdempotencyRecord) (key fingerprint : String) : Answer :=
  if record.fingerprint ≠ fingerprint then .error (idempotencyKeyReusedError key)
  else
    match record.response with
    | none => .error (idempotencyKeyInProgressError key)
    | some stored => .sent (sendStored stored key)

/-- A keyed request once `__call__` has read it: the storage key, the client's own key and
    the fingerprint. -/
structure Request where
  fullKey : String
  key : String
  fingerprint : String
  deriving DecidableEq

/-- The record a request reserves its key with. -/
def Request.reservation (r : Request) : IdempotencyRecord := { fingerprint := r.fingerprint }

theorem Capture.outcome_complete {c : Capture} {fingerprint : String} {record : IdempotencyRecord}
    (h : c.outcome fingerprint = .complete record) :
    record.fingerprint = fingerprint ∧ ∃ stored, record.response = some stored := by
  unfold Capture.outcome at h
  split at h
  · cases h
  split at h <;> cases h
  exact ⟨rfl, _, rfl⟩

end Idempotency
