import Mathlib.Algebra.Group.Nat.Defs
import FastapiBoilerplate.Idempotency.Middleware
import FastapiBoilerplate.Lib.Headers
import FastapiBoilerplate.Lib.Lists

/-!
# From an HTTP request to its storage key

The beginning of `IdempotencyMiddleware.__call__`: whether a request is keyed at all, the key it
brought, the body that is buffered to be fingerprinted, and the storage key, which is the client's
key in the namespace of its credential. Two keyed requests use the same storage key when their
credentials and keys are the same, and only then as far as the truncated digest tells credentials
apart (`fullKey_eq_iff`).

SHA-256 is a parameter, a function from bytes to 256 bits.
-/

namespace Idempotency

open Lib

/-! ## Requests -/

/-- A message of the ASGI receive channel. -/
inductive Received
  | request (body : Bytes) (moreBody : Bool)
  | disconnect

/-- An HTTP request: `request.method`, `request.url.path`, `request.url.query`, its headers, and
    what arrives on its receive channel. -/
structure HttpRequest where
  method : String
  path : String
  query : String := ""
  headers : RawHeaders := []
  received : List Received

/-- The fields of `IdempotencyConfig` that decide which requests are keyed. -/
structure RequestPolicy where
  methods : List String := ["POST", "PATCH", "PUT", "DELETE"]
  pathPrefixes : List String := ["/api/"]
  maxRequestBodyBytes : ℕ := 1024 * 1024
  enabled : Bool := true

/-- `_applies_to`. -/
def RequestPolicy.appliesTo (policy : RequestPolicy) (q : HttpRequest) : Bool :=
  q.method ∈ policy.methods && policy.pathPrefixes.any fun start => start.isPrefixOf q.path

def idempotencyKeyInvalidError (message : String) (details : List (String × String) := []) :
    AppException where
  statusCode := 400
  errorCode := "IDEMPOTENCY_KEY_INVALID"
  message := message
  details := details

def maxKeyLength : ℕ := 255

/-- `re.match(r"^[\x21-\x7e]+$", key)`: the end may stand before a final newline. -/
def keyMatches (key : String) : Bool :=
  let body := if key.toList.getLast? = some '\n' then key.toList.dropLast else key.toList
  !body.isEmpty && body.all fun c => 0x21 ≤ c.toNat && c.toNat ≤ 0x7e

/-- `validate_idempotency_key`. -/
def validateIdempotencyKey (key : String) : Except AppException String :=
  if key.isEmpty then .error (idempotencyKeyInvalidError "Idempotency-Key must not be empty.")
  else if maxKeyLength < key.length then
    .error (idempotencyKeyInvalidError "Idempotency-Key must be at most 255 characters."
      [("length", toString key.length)])
  else if !keyMatches key then
    .error (idempotencyKeyInvalidError
      "Idempotency-Key must contain only printable, non-space ASCII.")
  else .ok key

/-- `_buffer_request`: the body and whether it ran past the limit; `none` while the client has not
    sent enough. -/
def bufferRequest (limit : ℕ) (body : Bytes) : List Received → Option (Bytes × Bool)
  | [] => none
  | .disconnect :: _ => some (body, false)
  | .request chunk moreBody :: rest =>
    if limit < (body ++ chunk).length then some ([], true)
    else if moreBody then bufferRequest limit (body ++ chunk) rest
    else some (body ++ chunk, false)

/-! ## Digests -/

/-- `hexdigest()` of a SHA-256 digest. -/
def hexdigest (digest : BitVec 256) : String :=
  String.ofList ((List.range 64).map fun i =>
    Nat.digitChar (digest.toNat / 16 ^ (63 - i) % 16))

/-- `request_fingerprint`. -/
def requestFingerprint (sha256 : Bytes → BitVec 256) (method path : String)
    (query body : Bytes) (contentType : String) : String :=
  hexdigest (sha256 (([encode (method.map Char.toUpper), encode path, query, encode contentType,
    body].map fun part => encode (toString part.length) ++ [0] ++ part).flatten))

/-- The namespace of a credential: half the digits of its digest. -/
def credentialDigest (sha256 : Bytes → BitVec 256) (credential : String) : String :=
  String.ofList ((hexdigest (sha256 (encode credential))).toList.take 32)

/-- `scope_fingerprint`. -/
def scopeFingerprint (sha256 : Bytes → BitVec 256) (authorization : Option String) : String :=
  match authorization with
  | none => "anon"
  | some credential =>
    if credential.isEmpty then "anon"
    else credentialDigest sha256 credential

/-- `storage_key`. -/
def storageKey (scope key : String) : String := scope ++ ":" ++ key

/-! ## The prologue -/

/-- What `__call__` does with a request before it turns to the store. -/
inductive Prologue
  /-- The app is called, unprotected. -/
  | passThrough
  | refused (exc : AppException)
  /-- The body is still being received. -/
  | receiving
  | keyed (r : Request)
  deriving DecidableEq

/-- `request.headers.get(name)`. -/
def HttpRequest.header (q : HttpRequest) (name : String) : Option String :=
  (q.headers.getRaw name).map decodeLatin1

/-- `__call__`, up to the reservation. -/
def prologue (sha256 : Bytes → BitVec 256) (policy : RequestPolicy) (q : HttpRequest) :
    Prologue :=
  if !policy.enabled || !policy.appliesTo q then .passThrough
  else
    match q.header "Idempotency-Key" with
    | none => .passThrough
    | some rawKey =>
      match validateIdempotencyKey rawKey with
      | .error exc => .refused exc
      | .ok key =>
        match bufferRequest policy.maxRequestBodyBytes [] q.received with
        | none => .receiving
        | some (_, true) => .passThrough
        | some (body, false) =>
          .keyed {
            fullKey := storageKey (scopeFingerprint sha256 (q.header "authorization")) key
            key
            fingerprint := requestFingerprint sha256 q.method q.path (encode q.query) body
              ((q.header "content-type").getD "") }

/-! ## When two requests share a storage key -/

/-- The request is one that the middleware protects. -/
def Keyed (policy : RequestPolicy) (q : HttpRequest) : Prop :=
  policy.enabled = true ∧ policy.appliesTo q = true ∧
    (∃ key, q.header "Idempotency-Key" = some key ∧ (validateIdempotencyKey key).isOk = true) ∧
    ∃ body, bufferRequest policy.maxRequestBodyBytes [] q.received = some (body, false)

/-- The credential a request's keys are scoped by; an empty header is none. -/
def HttpRequest.credential (q : HttpRequest) : Option String :=
  (q.header "authorization").filter fun value => !value.isEmpty

variable {sha256 : Bytes → BitVec 256} {policy : RequestPolicy} {q q₁ q₂ : HttpRequest}
  {r r₁ r₂ : Request}

theorem validate_eq {key key' : String} (h : validateIdempotencyKey key = .ok key') :
    key' = key := by
  unfold validateIdempotencyKey at h
  split at h
  · cases h
  split at h
  · cases h
  split at h <;> cases h
  rfl

theorem scopeFingerprint_credential (sha256 : Bytes → BitVec 256) (q : HttpRequest) :
    scopeFingerprint sha256 (q.header "authorization") = scopeFingerprint sha256 q.credential := by
  unfold HttpRequest.credential
  cases q.header "authorization" with
  | none => rfl
  | some value =>
    cases hempty : value.isEmpty with
    | true => simp [scopeFingerprint, Option.filter, hempty]
    | false => simp [Option.filter, hempty]

theorem keyed_of_prologue (h : prologue sha256 policy q = .keyed r) :
    Keyed policy q ∧ q.header "Idempotency-Key" = some r.key ∧
      r.fullKey = storageKey (scopeFingerprint sha256 q.credential) r.key ∧
      ∃ body, bufferRequest policy.maxRequestBodyBytes [] q.received = some (body, false) ∧
        r.fingerprint = requestFingerprint sha256 q.method q.path (encode q.query) body
          ((q.header "content-type").getD "") := by
  unfold prologue at h
  split at h
  · cases h
  rename_i happlies
  obtain ⟨henabled, happlies⟩ : policy.enabled = true ∧ policy.appliesTo q = true := by
    simpa using happlies
  split at h
  · cases h
  rename_i rawKey hheader
  split at h
  · cases h
  rename_i key hvalid
  obtain rfl := validate_eq hvalid
  split at h
  · cases h
  · cases h
  rename_i body hbody
  cases h
  rw [← scopeFingerprint_credential]
  exact ⟨⟨henabled, happlies, ⟨key, hheader, by rw [hvalid]; rfl⟩, body, hbody⟩, hheader,
    rfl, body, hbody, rfl⟩

theorem prologue_of_keyed (sha256 : Bytes → BitVec 256) (h : Keyed policy q) :
    ∃ r, prologue sha256 policy q = .keyed r := by
  obtain ⟨henabled, happlies, ⟨key, hheader, hok⟩, body, hbody⟩ := h
  cases hvalid : validateIdempotencyKey key with
  | error =>
    rw [hvalid] at hok
    cases hok
  | ok =>
    unfold prologue
    simp only [henabled, happlies, hheader, hvalid, hbody]
    exact ⟨_, rfl⟩

/-! Scopes hold no colon, so a storage key determines its scope and the client's key. -/

theorem digitChar_ne_colon : ∀ d < 16, Nat.digitChar d ≠ ':' := by
  decide

theorem colon_notMem_scope (sha256 : Bytes → BitVec 256) (authorization : Option String) :
    ':' ∉ (scopeFingerprint sha256 authorization).toList := by
  have hanon : ':' ∉ "anon".toList := by decide
  unfold scopeFingerprint
  split
  · exact hanon
  split
  · exact hanon
  intro hmem
  rw [credentialDigest, String.toList_ofList] at hmem
  have hdigit := List.mem_of_mem_take hmem
  simp only [hexdigest, String.toList_ofList, List.mem_map] at hdigit
  obtain ⟨i, -, hi⟩ := hdigit
  exact digitChar_ne_colon _ (Nat.mod_lt _ (by omega)) hi

theorem storageKey_inj {authorization₁ authorization₂ : Option String} {key₁ key₂ : String}
    (h : storageKey (scopeFingerprint sha256 authorization₁) key₁ =
      storageKey (scopeFingerprint sha256 authorization₂) key₂) :
    scopeFingerprint sha256 authorization₁ = scopeFingerprint sha256 authorization₂ ∧
      key₁ = key₂ := by
  have hlist := congrArg String.toList h
  simp only [storageKey, String.toList_append, List.append_assoc] at hlist
  obtain ⟨hscope, hkey⟩ := append_cons_inj (colon_notMem_scope sha256 authorization₁)
    (colon_notMem_scope sha256 authorization₂) hlist
  exact ⟨String.toList_inj.mp hscope, String.toList_inj.mp hkey⟩

/-- Two different credentials have different digests: the one thing asked of SHA-256, and only of
    the two at hand. -/
def NoCollision (sha256 : Bytes → BitVec 256) (q₁ q₂ : HttpRequest) : Prop :=
  ∀ a ∈ q₁.credential, ∀ b ∈ q₂.credential,
    credentialDigest sha256 a = credentialDigest sha256 b → a = b

theorem length_credentialDigest (sha256 : Bytes → BitVec 256) (credential : String) :
    (credentialDigest sha256 credential).toList.length = 32 := by
  simp [credentialDigest, hexdigest]

theorem scopeFingerprint_of_credential {a : String} (h : q.credential = some a) :
    scopeFingerprint sha256 (some a) = credentialDigest sha256 a := by
  obtain ⟨-, hempty⟩ := Option.filter_eq_some_iff.mp h
  have hempty : a.isEmpty = false := by simpa using hempty
  simp [scopeFingerprint, hempty]

theorem credential_eq_of_scope (hdigest : NoCollision sha256 q₁ q₂)
    (h : scopeFingerprint sha256 q₁.credential = scopeFingerprint sha256 q₂.credential) :
    q₁.credential = q₂.credential := by
  have hanon (a : String) : "anon" ≠ credentialDigest sha256 a := by
    intro heq
    have hlength := length_credentialDigest sha256 a
    rw [← heq] at hlength
    exact absurd hlength (by decide)
  cases h₁ : q₁.credential with
  | none =>
    cases h₂ : q₂.credential with
    | none => rfl
    | some b =>
      rw [h₁, h₂, scopeFingerprint_of_credential h₂] at h
      exact absurd h (hanon b)
  | some a =>
    cases h₂ : q₂.credential with
    | none =>
      rw [h₁, h₂, scopeFingerprint_of_credential h₁] at h
      exact absurd h.symm (hanon a)
    | some b =>
      rw [h₁, h₂, scopeFingerprint_of_credential h₁, scopeFingerprint_of_credential h₂] at h
      rw [hdigest a h₁ b h₂ h]

/-- **Two keyed requests use the same storage key if and only if they bring the same credential and
    the same key.** -/
theorem fullKey_eq_iff (h₁ : prologue sha256 policy q₁ = .keyed r₁)
    (h₂ : prologue sha256 policy q₂ = .keyed r₂) (hdigest : NoCollision sha256 q₁ q₂) :
    r₁.fullKey = r₂.fullKey ↔ q₁.credential = q₂.credential ∧
      q₁.header "Idempotency-Key" = q₂.header "Idempotency-Key" := by
  obtain ⟨-, hkey₁, hfull₁, -⟩ := keyed_of_prologue h₁
  obtain ⟨-, hkey₂, hfull₂, -⟩ := keyed_of_prologue h₂
  rw [hfull₁, hfull₂, hkey₁, hkey₂]
  constructor
  · intro h
    obtain ⟨hscope, hkey⟩ := storageKey_inj h
    exact ⟨credential_eq_of_scope hdigest hscope, congrArg some hkey⟩
  · rintro ⟨hcredential, hkey⟩
    rw [hcredential, Option.some.inj hkey]

end Idempotency
