import FastapiBoilerplate.Tenancy.Resolver

/-!
# The tenant a WebSocket handshake is authenticated in

`src/ws/auth.py` behind `TenantContextMiddleware`. The middleware looks for a token in
`Authorization`; `extract_credential` looks there first and then among the subprotocols, where
browsers have to put it. Then the token is verified and its subject is looked up, in a session of
its own that the tenant in scope is bound to.

Where the credential is in `Authorization`, the two parsers agree
(`bearerToken_of_extractCredential`). Where it is a subprotocol, the middleware has not seen it, and
the lookup runs in whatever the tenant header names, or in no tenant
(`handshake_scoped_iff`).
-/

namespace Ws

open Lib Auth Tenancy

variable {φ δ : Type}

def authSubprotocol : Text := lit "bearer.auth.v1"

def rejectedQueryParam : Text := lit "token"

/-- The columns of a user that authentication reads. -/
structure User where
  id : UUID
  isActive : Bool

structure AuthenticatedClient (δ : Type) where
  user : User
  claims : AccessTokenClaims δ
  subprotocol : Option Text

/-- `WebSocketAuthError`, by its reason. -/
abbrev Reason := Text

/-- `extract_credential`: the token, and the subprotocol to echo. -/
def extractCredential (scope : Scope) : Except Reason (Text × Option Text) :=
  match scope.headers.get "authorization" with
  | some (c :: cs) =>
    match partition (lit " ") (c :: cs) with
    | none => .error (lit "Authorization header is not a non-empty Bearer credential")
    | some (scheme, token) =>
      if !isBearer scheme || (strip token).isEmpty then
        .error (lit "Authorization header is not a non-empty Bearer credential")
      else .ok (strip token, none)
  | _ =>
    if authSubprotocol ∈ scope.subprotocols then
      -- strictly the next one
      match scope.subprotocols[scope.subprotocols.idxOf authSubprotocol + 1]? with
      | some (c :: cs) => .ok (c :: cs, some authSubprotocol)
      | _ => .error (lit "Subprotocol 'bearer.auth.v1' was offered without a token after it")
    else if rejectedQueryParam ∈ scope.queryParams then
      .error (lit "Credential presented as the 'token' query parameter, which this endpoint does " ++
        lit "not read: a token in a URL is logged by every hop. Offer 'bearer.auth.v1' and the " ++
        lit "token as subprotocols, or send an Authorization header.")
    else .error (lit "No credential on the handshake request")

/-- A user lookup: the tenant in scope when it ran, and the id it was for. -/
structure Lookup where
  tenantId : Option UUID
  userId : UUID

/-- How `authenticate` fails. -/
inductive AuthFailure
  /-- `WebSocketAuthError`. -/
  | refused (reason : Reason)
  /-- Another exception. -/
  | raised

/-- What `authenticate` did and how it ended. -/
structure Authentication (δ : Type) where
  lookups : List Lookup
  result : Except AuthFailure (AuthenticatedClient δ)

/-- `authenticate`. The lookup is a function of the tenant its session is bound to. -/
def authenticate (lib : TokenLibrary φ δ) (now : ℤ) (lookup : Option UUID → UUID → Option User)
    (ctx : Context) (scope : Scope) : Authentication δ :=
  match extractCredential scope with
  | .error reason => ⟨[], .error (.refused reason)⟩
  | .ok (token, subprotocol) =>
    match verifyAccessToken lib now token with
    | .error (.invalid message) => ⟨[], .error (.refused message)⟩
    | .error .raised => ⟨[], .error .raised⟩
    | .ok claims =>
      let lookups := [⟨ctx.current, claims.subject⟩]
      match lookup ctx.current claims.subject with
      | none => ⟨lookups, .error (.refused (lit "Token subject does not name a user"))⟩
      | some user =>
        if !user.isActive then ⟨lookups, .error (.refused (lit "User is inactive"))⟩
        else ⟨lookups, .ok ⟨user, claims, subprotocol⟩⟩

/-- A handshake: the middleware resolves at one reading of the clock, and the endpoint behind it
    authenticates at another. -/
def handshake (cfg : Config) (lib : TokenLibrary φ δ) (resolvedAt authenticatedAt : ℤ)
    (lookup : Option UUID → UUID → Option User) (ctx : Context) (scope : Scope) :
    Reply (Authentication δ) :=
  cfg.call lib resolvedAt (authenticate lib authenticatedAt lookup) ctx scope

/-! ## Where the two parsers meet -/

/-- The credential stands in the `Authorization` header. -/
def InAuthorization (scope : Scope) : Prop :=
  (scope.headers.get "authorization").any (fun value => !value.isEmpty) = true

instance (scope : Scope) : Decidable (InAuthorization scope) :=
  inferInstanceAs (Decidable (_ = true))

/-- The tenant that the tenant header names. -/
def namedTenant (cfg : Config) (scope : Scope) : Option UUID :=
  (scope.headers.get cfg.headerName).bind fun raw => UUID.parse (strip raw)

/-- The tenant header is absent, empty or a tenant. -/
def ReadableHeader (cfg : Config) (scope : Scope) : Prop :=
  (scope.headers.get cfg.headerName).all
    (fun raw => raw.isEmpty || (UUID.parse (strip raw)).isSome) = true

variable {cfg : Config} {lib : TokenLibrary φ δ} {scope : Scope} {token : Text}
  {subprotocol : Option Text} {claims : AccessTokenClaims δ} {resolvedAt authenticatedAt now : ℤ}
  {lookup : Option UUID → UUID → Option User} {ctx : Context} {tenant : UUID}

theorem bearerToken_of_extractCredential (hin : InAuthorization scope)
    (h : extractCredential scope = .ok (token, subprotocol)) :
    bearerToken (scope.headers.get "authorization") = some token := by
  unfold extractCredential at h
  unfold InAuthorization at hin
  cases hauth : scope.headers.get "authorization" with
  | none =>
    rw [hauth] at hin
    cases hin
  | some value =>
    rw [hauth] at hin h
    cases value with
    | nil => cases hin
    | cons c cs =>
      cases hparts : partition (lit " ") (c :: cs) with
      | none =>
        simp only [hparts] at h
        cases h
      | some =>
        simp only [bearerToken, hparts] at h ⊢
        split at h
        · cases h
        rename_i hbad
        rw [if_neg hbad]
        cases h
        rfl

theorem bearerToken_of_not_inAuthorization (hout : ¬ InAuthorization scope) :
    bearerToken (scope.headers.get "authorization") = none := by
  unfold InAuthorization at hout
  cases hauth : scope.headers.get "authorization" with
  | none => rfl
  | some value =>
    rw [hauth] at hout
    cases value with
    | nil => rfl
    | cons => exact absurd rfl hout

theorem fromHeader_cases (cfg : Config) (scope : Scope) :
    (¬ ReadableHeader cfg scope ∧ namedTenant cfg scope = none ∧
      fromHeader (scope.headers.get cfg.headerName) = .error (.app .invalidTenant)) ∨
    (ReadableHeader cfg scope ∧
      fromHeader (scope.headers.get cfg.headerName) = .ok (namedTenant cfg scope)) := by
  unfold ReadableHeader namedTenant
  cases hraw : scope.headers.get cfg.headerName with
  | none => exact .inr ⟨rfl, rfl⟩
  | some raw =>
    cases raw with
    | nil => exact .inr ⟨rfl, by decide⟩
    | cons c cs =>
      cases hparse : UUID.parse (strip (c :: cs)) with
      | none => exact .inl ⟨by simp [hparse], by simp [hparse],
          by simp [fromHeader, parseTenantId, hparse, Except.map]⟩
      | some => exact .inr ⟨by simp [hparse],
          by simp [fromHeader, parseTenantId, hparse, Except.map]⟩

/-- With a token that names `tenant`, the header can only repeat it. -/
theorem resolve_of_token (cfg : Config) (h : tenantFromToken lib now
      (bearerToken (scope.headers.get "authorization")) = .ok (some tenant)) :
    (¬ ReadableHeader cfg scope ∧ cfg.resolve lib now scope = .error (.app .invalidTenant)) ∨
    (ReadableHeader cfg scope ∧ (∃ other ≠ tenant, namedTenant cfg scope = some other) ∧
      cfg.resolve lib now scope = .error (.app .tenantMismatch)) ∨
    (ReadableHeader cfg scope ∧ cfg.resolve lib now scope = .ok ⟨some tenant, .token⟩) := by
  unfold Config.resolve
  rw [resolveTenant_of_token h]
  rcases fromHeader_cases cfg scope with ⟨hunread, -, hheader⟩ | ⟨hread, hheader⟩
  · rw [hheader]
    exact .inl ⟨hunread, rfl⟩
  rw [hheader]
  by_cases hother : namedTenant cfg scope ≠ none ∧ namedTenant cfg scope ≠ some tenant
  · obtain ⟨other, hnamed⟩ := Option.ne_none_iff_exists'.mp hother.1
    have hne : other ≠ tenant := by
      rintro rfl
      exact hother.2 hnamed
    exact .inr (.inl ⟨hread, ⟨other, hne, hnamed⟩, if_pos hother⟩)
  · exact .inr (.inr ⟨hread, if_neg hother⟩)

/-- Without one, the tenant is what a trusted header names. -/
theorem resolve_of_no_token (cfg : Config) (h : tenantFromToken lib now
      (bearerToken (scope.headers.get "authorization")) = .ok none) :
    (namedTenant cfg scope = none ∧ cfg.resolve lib now scope = .error (.app .invalidTenant)) ∨
    ∃ source, cfg.resolve lib now scope =
      .ok ⟨if cfg.trustHeader then namedTenant cfg scope else none, source⟩ := by
  unfold Config.resolve
  rw [resolveTenant_of_no_token h]
  rcases fromHeader_cases cfg scope with ⟨-, hnamed, hheader⟩ | ⟨-, hheader⟩
  · rw [hheader]
    exact .inl ⟨hnamed, rfl⟩
  rw [hheader]
  apply Or.inr
  cases namedTenant cfg scope with
  | none => exact ⟨.none, by simp [Except.map]⟩
  | some =>
    cases cfg.trustHeader with
    | false => exact ⟨.none, rfl⟩
    | true => exact ⟨.header, rfl⟩

/-! ## The handshake -/

theorem lookups_authenticate (hcredential : extractCredential scope = .ok (token, subprotocol))
    (hverify : verifyAccessToken lib now token = .ok claims) :
    (authenticate lib now lookup ctx scope).lookups = [⟨ctx.current, claims.subject⟩] := by
  simp only [authenticate, hcredential, hverify]
  split
  · rfl
  · split <;> rfl

theorem handshake_of_resolve (hws : scope.type = .websocket) {resolution : TenantResolution}
    (h : cfg.resolve lib resolvedAt scope = .ok resolution) :
    handshake cfg lib resolvedAt authenticatedAt lookup ctx scope =
      .app (authenticate lib authenticatedAt lookup (ctx.enter resolution.tenantId) scope) := by
  simp [handshake, Config.call, hws, h]

theorem handshake_of_refusal (hws : scope.type = .websocket) {exc : TenantError}
    (h : cfg.resolve lib resolvedAt scope = .error (.app exc)) :
    handshake cfg lib resolvedAt authenticatedAt lookup ctx scope =
      .refused exc (.close wsPolicyViolation) := by
  simp [handshake, Config.call, hws, h, refuse]

/-- The handshake is refused because the header names a tenant other than `tenant`, or the user is
    looked up in `tenant`. -/
def Scoped (cfg : Config) (scope : Scope) (tenant userId : UUID) :
    Reply (Authentication δ) → Prop
  | .refused exc _ => exc = .tenantMismatch ∧ ∃ other ≠ tenant, namedTenant cfg scope = some other
  | .raised => False
  | .app answer => answer.lookups = [⟨some tenant, userId⟩]

/-- **A handshake is scoped to its credential's tenant if and only if** the credential is in the
    `Authorization` header and the tenant header, if any, can be read; or it is a subprotocol, and
    a trusted tenant header happens to name its tenant. -/
theorem handshake_scoped_iff (hws : scope.type = .websocket)
    (hcredential : extractCredential scope = .ok (token, subprotocol))
    (hresolved : verifyAccessToken lib resolvedAt token = .ok claims)
    (hauthenticated : verifyAccessToken lib authenticatedAt token = .ok claims)
    (htenant : claims.tenantId = some tenant) :
    Scoped cfg scope tenant claims.subject
        (handshake cfg lib resolvedAt authenticatedAt lookup ctx scope) ↔
      (InAuthorization scope ∧ ReadableHeader cfg scope) ∨
        (¬ InAuthorization scope ∧ cfg.trustHeader = true ∧
          namedTenant cfg scope = some tenant) := by
  by_cases hin : InAuthorization scope
  · -- the middleware has read the same token
    have htoken : tenantFromToken lib resolvedAt
        (bearerToken (scope.headers.get "authorization")) = .ok (some tenant) := by
      rw [bearerToken_of_extractCredential hin hcredential]
      simp [tenantFromToken, hresolved, htenant]
    rcases resolve_of_token cfg htoken with
      ⟨hunread, h⟩ | ⟨hread, hother, h⟩ | ⟨hread, h⟩
    · rw [handshake_of_refusal hws h]
      simp [Scoped, hin, hunread]
    · rw [handshake_of_refusal hws h]
      simp only [Scoped, hin, hread]
      simpa using hother
    · rw [handshake_of_resolve hws h]
      simp [Scoped, lookups_authenticate hcredential hauthenticated, hin, hread]
  · -- the middleware has seen no token
    have htoken : tenantFromToken lib resolvedAt
        (bearerToken (scope.headers.get "authorization")) = .ok none := by
      rw [bearerToken_of_not_inAuthorization hin]
      rfl
    rcases resolve_of_no_token cfg htoken with ⟨hnamed, h⟩ | ⟨source, h⟩
    · rw [handshake_of_refusal hws h]
      simp [Scoped, hin, hnamed]
    · rw [handshake_of_resolve hws h]
      cases cfg.trustHeader with
      | false | true => simp [Scoped, lookups_authenticate hcredential hauthenticated, hin]

/-- A library that knows one token, of user 7 in tenant 1. -/
def oneToken : TokenLibrary Empty Unit where
  decode _ token :=
    if token = lit "t" then
      some ((((∅ : Dict Text (Json Empty)).set (lit "type") (.str (lit "access"))).set (lit "sub")
        (.str (UUID.str 7))).set (lit "exp") (.int 9) |>.set (lit "tid") (.str (UUID.str 1)))
    else none
  fromTimestamp _ := some ()

theorem handshake_scoped_iff_authorization :
    let scope : Scope :=
      ⟨.websocket, [(headerName "authorization", "Bearer t".toUTF8.toList)], [], []⟩
    InAuthorization scope ∧ (Scoped {} scope 1 7
        (handshake {} oneToken 0 0 (fun _ id => some ⟨id, true⟩) {} scope) ↔
      (InAuthorization scope ∧ ReadableHeader {} scope) ∨
        (¬ InAuthorization scope ∧ ({} : Config).trustHeader = true ∧
          namedTenant {} scope = some 1)) := by
  intro scope
  have hcredential : extractCredential scope = .ok (lit "t", none) := by decide +kernel
  have hverify : verifyAccessToken oneToken 0 (lit "t") = .ok ⟨7, [], [], (), some 1⟩ := by
    decide +kernel
  exact ⟨by decide +kernel, handshake_scoped_iff rfl hcredential hverify hverify rfl⟩

/-- The browser's way: the token is a subprotocol. When nothing else names the tenant, the user is
    looked up in none; with a tenant header, in the tenant that the header names. -/
theorem handshake_leaves_credential_tenant :
    let lookup : Option UUID → UUID → Option User := fun _ id => some ⟨id, true⟩
    let bare : Scope := ⟨.websocket, [], [authSubprotocol, lit "t"], []⟩
    let named : Scope := { bare with
      headers := [(headerName "X-Tenant-ID", (UUID.str 2).map fun c => UInt8.ofNat c.val)] }
    verifyAccessToken oneToken 0 (lit "t") = .ok ⟨7, [], [], (), some 1⟩ ∧
    (extractCredential bare = .ok (lit "t", some authSubprotocol) ∧
      ¬ Scoped {} bare 1 7 (handshake {} oneToken 0 0 lookup {} bare)) ∧
    extractCredential named = .ok (lit "t", some authSubprotocol) ∧
      ¬ Scoped {} named 1 7 (handshake {} oneToken 0 0 lookup {} named) := by
  intro lookup bare named
  have hverify : verifyAccessToken oneToken 0 (lit "t") = .ok ⟨7, [], [], (), some 1⟩ := by
    decide +kernel
  have hbare : extractCredential bare = .ok (lit "t", some authSubprotocol) := by decide +kernel
  have hnamed : extractCredential named = .ok (lit "t", some authSubprotocol) := by decide +kernel
  have hnone : Config.resolve {} oneToken 0 bare = .ok ⟨none, .none⟩ := by decide +kernel
  have htwo : Config.resolve {} oneToken 0 named = .ok ⟨some 2, .header⟩ := by decide +kernel
  refine ⟨hverify, ⟨hbare, ?_⟩, hnamed, ?_⟩
  · rw [handshake_of_resolve rfl hnone]
    simp [Scoped, lookups_authenticate hbare hverify]
  · rw [handshake_of_resolve rfl htwo]
    simp [Scoped, lookups_authenticate hnamed hverify]

end Ws
