import Mathlib.Data.Rat.Floor
import FastapiBoilerplate.Lib.Run
import FastapiBoilerplate.DistributedLock.Base

/-!
# The Redis lock backend

`src/distributed_lock/redis_backend.py`, and the server under it. A claim is a string,
`token:owner`, under a key that expires; the counter of a name is a string under a key that does
not. Each Lua script runs to its end without another command in between, so each is a function of
the database. A key with a deadline is there before it and not from it on, whether or not it has
been collected. Keys are compared as text: the client encodes them, which is injective.

A request has two times: `started`, the client's reading before it is sent, and `served`, when the
server runs the script. What can go wrong in the client is a `Failure`; the error a script raises
comes back as `LockBackendUnavailableError`.
-/

namespace DistributedLock.Redis

open Lib

/-! ## The server -/

structure Entry where
  value : Bytes
  expires : Option Time

abbrev Db := AList fun _ : Text => Entry

/-- An integer in plain decimal, as Redis stores it and Lua concatenates it. -/
def plain (n : ℤ) : Text := if n < 0 then lit "-" ++ decimal n.natAbs else decimal n.natAbs

namespace Db

variable (db : Db) (key : Text) (now : Time)

/-- The entry under a key that has not reached its deadline. -/
def find : Option Entry :=
  (db.lookup key).filter fun entry => entry.expires.all fun e => decide (now < e)

/-- `GET`. -/
def get : Option Bytes := (db.find key now).map Entry.value

/-- `PTTL`. -/
def pttl : ℤ :=
  match db.find key now with
  | none => -2
  | some ⟨_, none⟩ => -1
  | some ⟨_, some e⟩ => ⌊(e - now) * 1000⌋

/-- `INCR`; `none` is its error, for a value that is not the decimal form of a 64-bit integer or
    the largest of them. -/
def incr : Option (Db × ℤ) :=
  match db.find key now with
  | none => some (db.insert key ⟨asciiBytes (plain 1), none⟩, 1)
  | some entry =>
    match (utf8Decode entry.value).bind readInt with
    | none => none
    | some n =>
      if asciiBytes (plain n) = entry.value ∧ -2 ^ 63 ≤ n ∧ n + 1 < 2 ^ 63 then
        some (db.insert key { entry with value := asciiBytes (plain (n + 1)) }, n + 1)
      else none

/-- `SET key value PX ms`. -/
def setPx (value : Bytes) (ms : ℤ) : Db := db.insert key ⟨value, some (now + ms / 1000)⟩

/-- `PEXPIRE key ms`. -/
def pexpire (ms : ℤ) : Db :=
  match db.find key now with
  | none => db
  | some entry => db.insert key { entry with expires := some (now + ms / 1000) }

/-- `DEL`. -/
def del : Db := db.erase key

end Db

/-! ## The scripts -/

/-- `_ACQUIRE_LUA`; `none` when `INCR` raises, which ends the script. -/
def acquireLua (lockKey fenceKey : Text) (owner : Bytes) (ttlMs : ℤ) (now : Time) (db : Db) :
    Option (Db × ℤ × Bytes × ℤ) :=
  match db.get lockKey now with
  | some current => some (db, 0, current, db.pttl lockKey now)
  | none =>
    (db.incr fenceKey now).map fun (db, token) =>
      let value := asciiBytes (plain token) ++ (asciiBytes (lit ":") ++ owner)
      (db.setPx lockKey now value ttlMs, 1, value, ttlMs)

/-- `_EXTEND_LUA`. -/
def extendLua (lockKey : Text) (expected : Bytes) (ttlMs : ℤ) (now : Time) (db : Db) : Db × ℤ :=
  match db.get lockKey now with
  | none => (db, 0)
  | some current =>
    if current ≠ expected then (db, -1) else (db.pexpire lockKey now ttlMs, 1)

/-- `_RELEASE_LUA`. -/
def releaseLua (lockKey : Text) (expected : Bytes) (now : Time) (db : Db) : Db × ℤ :=
  match db.get lockKey now with
  | none => (db, 0)
  | some current => if current ≠ expected then (db, -1) else (db.del lockKey, 1)

/-- `_RELEASE_OUTCOMES`. -/
def releaseOutcome (reply : ℤ) : Option ReleaseOutcome :=
  if reply = 0 then some .expired
  else if reply = -1 then some .notOwner
  else if reply = 1 then some .released
  else none

/-! ## The client -/

/-- What a call can raise besides `LockNameInvalidError`: the `ValueError`s of a TTL that is not
    positive, of a lock value without a colon and of one whose number `int` does not read or `str`
    does not print; `UnicodeEncodeError`; `KeyError` on the reply of a release;
    `LockBackendUnavailableError`. -/
inductive Failure
  | ttlNotPositive
  | malformed (value : Text)
  | number
  | encoding
  | key
  | unavailable (message : Text)

/-- `split_lock_value`. -/
def splitLockValue (value : Text) : Except Failure (ℤ × Text) :=
  match partition (lit ":") value with
  | none => .error (.malformed value)
  | some (tokenText, owner) =>
    match readInt tokenText with
    | none => .error .number
    | some token => .ok (token, owner)

/-- `_lock_value(lease)`, as it goes out on the wire. -/
def lockBytes (lease : Lease) : Except Failure Bytes :=
  match strInt lease.token with
  | none => .error .number
  | some token =>
    match utf8Encode (token ++ (lit ":" ++ lease.owner)) with
    | none => .error .encoding
    | some bytes => .ok bytes

/-- `_ttl_milliseconds`. -/
def ttlMilliseconds (ttlSeconds : Time) : Except Failure ℤ :=
  if ttlSeconds ≤ 0 then .error .ttlNotPositive else .ok (max 1 ⌈ttlSeconds * 1000⌉)

section Client

variable (ns : Text)

def lockKey (name : Text) : Text := ns ++ (lit ":lock:" ++ name)

def fenceKey (name : Text) : Text := ns ++ (lit ":fence:" ++ name)

variable (started served : Time) (db : Db)

/-- What `acquire` makes of the script's reply. -/
def acquireReply (name owner : Text) (ttlSeconds : Time) (claimed : ℤ) (value : Bytes) :
    Except Failure Answer :=
  if claimed = 0 then .ok (.acquired none)
  else
    match splitLockValue (utf8DecodeReplace value) with
    | .error failure => .error failure
    | .ok (token, _) =>
      .ok (.acquired
        (some { name, token, owner, ttlSeconds, expiresAt := started + ttlSeconds }))

/-- `acquire`. -/
def acquire (name owner : Text) (ttlSeconds : Time) : Db × Except Failure Answer :=
  match validateLockName name with
  | .error error => (db, .ok (.invalid error))
  | .ok _ =>
    match ttlMilliseconds ttlSeconds with
    | .error failure => (db, .error failure)
    | .ok ttlMs =>
      match utf8Encode owner with
      | none => (db, .error .encoding)
      | some ownerBytes =>
        match acquireLua (lockKey ns name) (fenceKey ns name) ownerBytes ttlMs served db with
        | none => (db, .error (.unavailable (lit "Could not reach the distributed lock store.")))
        | some (db, claimed, value, _) =>
          (db, acquireReply started name owner ttlSeconds claimed value)

/-- `extend`. -/
def extend (lease : Lease) (ttlSeconds : Time) : Db × Except Failure Answer :=
  match ttlMilliseconds ttlSeconds with
  | .error failure => (db, .error failure)
  | .ok ttlMs =>
    match lockBytes lease with
    | .error failure => (db, .error failure)
    | .ok expected =>
      match extendLua (lockKey ns lease.name) expected ttlMs served db with
      | (db, reply) =>
        if reply ≠ 1 then (db, .ok (.extended none))
        else (db, .ok (.extended (some (lease.renewedFor ttlSeconds (started + ttlSeconds)))))

/-- `release`. -/
def release (lease : Lease) : Db × Except Failure Answer :=
  match lockBytes lease with
  | .error failure => (db, .error failure)
  | .ok expected =>
    match releaseLua (lockKey ns lease.name) expected served db with
    | (db, reply) =>
      match releaseOutcome reply with
      | none => (db, .error .key)
      | some outcome => (db, .ok (.released outcome))

/-- `inspect`. -/
def inspect (name : Text) : Option LockState :=
  (db.get (lockKey ns name) served).map fun raw =>
    match splitLockValue (utf8DecodeReplace raw) with
    | .error _ => { name, token := 0, owner := lit "unknown", ttlSeconds := none }
    | .ok (token, owner) =>
      let ttlMs := db.pttl (lockKey ns name) served
      { name, token, owner, ttlSeconds := if ttlMs < 0 then none else some (ttlMs / 1000) }

/-- One call. `clear` is the in-memory backend's alone. -/
def serve : Call → Option (Db × Except Failure Answer)
  | .acquire name owner ttlSeconds => some (acquire ns started served db name owner ttlSeconds)
  | .extend lease ttlSeconds => some (extend ns started served db lease ttlSeconds)
  | .release lease => some (release ns served db lease)
  | .inspect name => some (db, .ok (.inspected (inspect ns served db name)))
  | .clear => none

end Client

/-! ## The callers -/

/-- A request with the reading taken before it was sent and the time it is served. -/
structure Timed where
  request : Request
  started : Time
  served : Time

/-- A call that was answered, and when it was sent. -/
structure Sent where
  started : Time
  call : Call
  answer : Answer

structure Sys where
  db : Db := ∅
  clock : Time := 0
  history : List Sent := []

/-- The leases handed out, in order. -/
def leases (history : List Sent) : List Lease := history.filterMap fun y => y.answer.lease

/-- The lease of a claim as its holder knows it: the last of `ls` under the name and token. -/
def last (ls : List Lease) (name : Text) (token : ℤ) : Option Lease :=
  (ls.filter fun lease => lease.name = name ∧ lease.token = token).getLast?

/-- A call that is answered; one that fails is no step. -/
def Sys.step (ns : Text) (s : Sys) (t : Timed) : Option Sys :=
  if s.clock ≤ t.served ∧ t.started ≤ t.served then
    match t.request.call (leases s.history) with
    | none => none
    | some call =>
      match serve ns t.started t.served s.db call with
      | some (db, .ok answer) =>
        some { db, clock := t.served, history := s.history ++ [⟨t.started, call, answer⟩] }
      | _ => none
  else none

end DistributedLock.Redis
