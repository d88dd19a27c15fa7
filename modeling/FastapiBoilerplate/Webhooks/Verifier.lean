import Mathlib.Data.Rat.Floor
import FastapiBoilerplate.Lib.Dict
import FastapiBoilerplate.Lib.Run
import FastapiBoilerplate.Webhooks.Signature

/-!
# The webhook verifier and its replay guard

`src/webhooks/verifier.py` over the in-memory guard of `src/webhooks/replay.py`, and the system of
any number of `verify` calls on one verifier. A call reads the wall clock once, for the window, and
authenticates without suspending; then it awaits the guard's lock, for as long as that takes, and
the guard reads the monotonic clock. The two clocks advance together: the wall clock is the
monotonic one plus a constant.

A `Verifier` carries what its constructor checks. Instants and lifetimes are rational seconds.
-/

namespace Webhooks

open Lib

abbrev Seconds := ℚ

structure SigningSecret where
  keyId : Text
  secret : Text

/-- `REPLAY_TTL_MULTIPLE`. -/
def replayTtlMultiple : ℕ := 2

/-- A `WebhookVerifier` with an `InMemoryReplayGuard` and `fail_open` off. -/
structure Verifier where
  secrets : List SigningSecret
  tolerance : ℕ
  /-- The guard's `ttl_seconds`. -/
  ttl : Seconds
  nameSpace : Text := lit "inbound"
  signatureHeader : Text := lit "X-Webhook-Signature"
  secrets_ne_nil : secrets ≠ []
  one_le_tolerance : 1 ≤ tolerance
  covers : ((tolerance * replayTtlMultiple : ℕ) : Seconds) ≤ ttl

inductive ConfigurationError
  | noSecrets
  | tolerance
  | ttl

/-- `WebhookVerifier.__init__`. -/
def Verifier.init (secrets : List SigningSecret) (tolerance : ℕ) (ttl : Seconds)
    (nameSpace signatureHeader : Text) : Except ConfigurationError Verifier :=
  if hsecrets : secrets = [] then .error .noSecrets
  else if htolerance : tolerance < 1 then .error .tolerance
  else if hcovers : ttl < ((tolerance * replayTtlMultiple : ℕ) : Seconds) then .error .ttl
  else .ok ⟨secrets, tolerance, ttl, nameSpace, signatureHeader, hsecrets, not_lt.mp htolerance,
    not_lt.mp hcovers⟩

/-! ## Authentication -/

structure VerifiedDelivery where
  keyId : Text
  timestamp : ℕ
  fingerprint : Text
  body : Bytes

inductive VerifyError
  | signatureHeaderMissing (header : Text)
  | signatureHeaderMalformed (exc : Malformed)
  | timestampOutsideWindow (skewSeconds : ℤ) (toleranceSeconds : ℕ)
  | signatureMismatch
  | replayed

namespace Verifier

variable (v : Verifier) (digests : Digests)

/-- `int(skew)`. -/
def truncate (skew : Seconds) : ℤ := if 0 ≤ skew then ⌊skew⌋ else ⌈skew⌉

/-- `_check_window`, with what the wall clock read. -/
def checkWindow (wall : Seconds) (timestamp : ℕ) : Except VerifyError Unit :=
  if |wall - timestamp| ≤ v.tolerance then .ok ()
  else .error (.timestampOutsideWindow (truncate (wall - timestamp)) v.tolerance)

/-- `verify`, up to the claim. -/
def authenticate (signature : Option Text) (body : Bytes) (wall : Seconds) :
    Except VerifyError VerifiedDelivery :=
  match signature with
  | none => .error (.signatureHeaderMissing v.signatureHeader)
  | some [] => .error (.signatureHeaderMissing v.signatureHeader)
  | some raw =>
    match parseSignatureHeader raw with
    | .error exc => .error (.signatureHeaderMalformed exc)
    | .ok parsed => do
      v.checkWindow wall parsed.timestamp
      match v.secrets.find? fun secret =>
        digestMatches (computeDigest digests secret.secret parsed.timestamp body)
          parsed.digests with
      | none => throw .signatureMismatch
      | some secret =>
        return {
          keyId := secret.keyId
          timestamp := parsed.timestamp
          fingerprint := deliveryFingerprint digests parsed.timestamp body
          body }

end Verifier

/-! ## The guard -/

/-- `_claims`: the reading at which each claim lapses. -/
abbrev Guard := Dict Text Seconds

def purgeThreshold : ℕ := 10000

namespace Guard

/-- `_purge_expired`. -/
def purgeExpired (guard : Guard) (now : Seconds) : Guard :=
  guard.filterValues fun expiresAt => now < expiresAt

/-- A claim that is new, or whose predecessor has lapsed. -/
def record (guard : Guard) (ttl : Seconds) (fingerprint : Text) (now : Seconds) : Guard :=
  (if purgeThreshold ≤ guard.items.length then guard.purgeExpired now else guard).set fingerprint
    (now + ttl)

/-- `InMemoryReplayGuard.claim`. -/
def claim (guard : Guard) (ttl : Seconds) (fingerprint : Text) (now : Seconds) : Bool × Guard :=
  match guard.get fingerprint with
  | some expiresAt =>
    if now < expiresAt then (false, guard) else (true, guard.record ttl fingerprint now)
  | none => (true, guard.record ttl fingerprint now)

end Guard

/-! ## Any number of calls -/

/-- Where a `verify` call stands. -/
inductive Phase
  /-- Authenticated at the reading `checked`, waiting for the guard. -/
  | claiming (delivery : VerifiedDelivery) (checked : Seconds)
  | accepted (delivery : VerifiedDelivery) (checked claimed : Seconds)
  | refused (exc : VerifyError)
  | cancelled

structure Sys where
  guard : Guard := ∅
  calls : List Phase := []
  /-- The latest reading of the monotonic clock. -/
  clock : Seconds := 0

inductive Action
  | verify (signature : Option Text) (body : Bytes) (now : Seconds)
  | claim (i : ℕ) (now : Seconds)
  /-- The task is cancelled while it waits for the guard. -/
  | cancel (i : ℕ)

/-- The name a delivery is claimed under. -/
def Verifier.claimKey (v : Verifier) (fingerprint : Text) : Text :=
  v.nameSpace ++ lit ":" ++ fingerprint

namespace Sys

/-- One step of the system; the wall clock reads `epoch` more than the monotonic one. -/
def step (v : Verifier) (digests : Digests) (epoch : Seconds) (s : Sys) : Action → Option Sys
  | .verify signature body now =>
    if s.clock ≤ now then
      let phase := match v.authenticate digests signature body (epoch + now) with
        | .ok delivery => .claiming delivery now
        | .error exc => .refused exc
      some { s with calls := s.calls ++ [phase], clock := now }
    else none
  | .claim i now =>
    match s.calls[i]? with
    | some (.claiming delivery checked) =>
      if s.clock ≤ now then
        match s.guard.claim v.ttl (v.claimKey delivery.fingerprint) now with
        | (true, guard) =>
          some ⟨guard, s.calls.set i (.accepted delivery checked now), now⟩
        | (false, guard) => some ⟨guard, s.calls.set i (.refused .replayed), now⟩
      else none
    | _ => none
  | .cancel i =>
    match s.calls[i]? with
    | some (.claiming _ _) => some { s with calls := s.calls.set i .cancelled }
    | _ => none

end Sys

/-- The call returned successfully for this timestamp and body. -/
def Phase.accepts (timestamp : ℕ) (body : Bytes) : Phase → Bool
  | .accepted delivery _ _ => delivery.timestamp = timestamp ∧ delivery.body = body
  | _ => false

/-- How many calls returned successfully for this timestamp and body. -/
def Sys.acceptances (s : Sys) (timestamp : ℕ) (body : Bytes) : ℕ :=
  s.calls.countP (Phase.accepts timestamp body)

end Webhooks
