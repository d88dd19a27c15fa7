import FastapiBoilerplate.Auth.AccessToken
import FastapiBoilerplate.Lib.Headers
import FastapiBoilerplate.Tenancy.Context

/-!
# Which tenant a request belongs to

`src/tenancy/resolver.py` and the middleware of `src/tenancy/middleware.py` that runs the rest of
the application in the scope of what it resolved. A tenant comes from the `tid` claim of the bearer
token in `Authorization` or, where that is trusted, from the tenant header; when both name one they
must agree.

The application behind the middleware is a function of the context it is called in and of the
request's ASGI scope.
-/

namespace Tenancy

open Lib Auth

variable {φ δ α : Type}

/-! ## The resolver -/

inductive TenantSource
  | token
  | header
  | none
deriving DecidableEq

structure TenantResolution where
  tenantId : Option UUID
  source : TenantSource
deriving DecidableEq

/-- The `AppException`s of `src/tenancy/errors.py` that the resolver raises. -/
inductive TenantError
  | invalidTenant
  | tenantMismatch
deriving DecidableEq

def TenantError.statusCode : TenantError → ℕ
  | .invalidTenant => 400
  | .tenantMismatch => 403

def TenantError.errorCode : TenantError → Text
  | .invalidTenant => lit "INVALID_TENANT"
  | .tenantMismatch => lit "TENANT_MISMATCH"

def TenantError.message : TenantError → Text
  | .invalidTenant => lit "Malformed tenant identifier"
  | .tenantMismatch => lit "Tenant does not match the presented credential"

/-- What the resolver raises. -/
inductive Raised
  | app (exc : TenantError)
  /-- Not an `AppException`: it passes through the middleware. -/
  | other
deriving DecidableEq

/-- `parse_tenant_id`. -/
def parseTenantId (raw : Text) : Except Raised UUID :=
  match UUID.parse (strip raw) with
  | some id => .ok id
  | none => .error (.app .invalidTenant)

/-- `scheme.lower() == "bearer"`. No letter outside ASCII has one of these as its lower case. -/
def isBearer (scheme : Text) : Bool := lowerAscii scheme = lit "bearer"

/-- `bearer_token`. -/
def bearerToken : Option Text → Option Text
  | none => none
  | some [] => none
  | some authorization =>
    match partition (lit " ") authorization with
    | none => none
    | some (scheme, credential) =>
      if !isBearer scheme || (strip credential).isEmpty then none else some (strip credential)

/-- `tenant_from_token`. -/
def tenantFromToken (lib : TokenLibrary φ δ) (now : ℤ) :
    Option Text → Except Raised (Option UUID)
  | none => .ok none
  | some token =>
    match verifyAccessToken lib now token with
    | .ok claims => .ok claims.tenantId
    | .error (.invalid _) => .ok none
    | .error .raised => .error .other

/-- The tenant header, where there is one that is not empty. -/
def fromHeader : Option Text → Except Raised (Option UUID)
  | none => .ok none
  | some [] => .ok none
  | some raw => (parseTenantId raw).map some

/-- `resolve_tenant`. -/
def resolveTenant (lib : TokenLibrary φ δ) (now : ℤ) (headerValue authorization : Option Text)
    (trustHeader : Bool) : Except Raised TenantResolution := do
  let fromHeader ← fromHeader headerValue
  let fromToken ← tenantFromToken lib now (bearerToken authorization)
  match fromToken with
  | some tenant =>
    -- checked even when the header is not trusted
    if fromHeader ≠ none ∧ fromHeader ≠ some tenant then throw (.app .tenantMismatch)
    else return ⟨some tenant, .token⟩
  | none =>
    match fromHeader with
    | some tenant => return if trustHeader then ⟨some tenant, .header⟩ else ⟨none, .none⟩
    | none => return ⟨none, .none⟩

/-! ## The middleware -/

inductive ScopeType
  | http
  | websocket
  | other

/-- An ASGI scope, as far as the tenant and the credential are read from it. -/
structure Scope where
  type : ScopeType
  headers : RawHeaders
  /-- `scope["subprotocols"]`: `Sec-WebSocket-Protocol`, split by the server. -/
  subprotocols : List Text := []
  /-- The names in the query string. -/
  queryParams : List Text := []

structure Config where
  headerName : String := "X-Tenant-ID"
  trustHeader : Bool := true

/-- What `_refuse` sends. -/
inductive Refusal
  | close (code : ℕ)
  | response (statusCode : ℕ) (errorCode message : Text)

/-- How a call of the middleware ends. -/
inductive Reply (α : Type)
  | refused (exc : TenantError) (sent : Refusal)
  | raised
  | app (answer : α)

def wsPolicyViolation : ℕ := 1008

/-- `_refuse`. -/
def refuse (scope : Scope) (exc : TenantError) : Refusal :=
  match scope.type with
  | .websocket => .close wsPolicyViolation
  | _ => .response exc.statusCode exc.errorCode exc.message

/-- What the middleware resolves for a request. -/
def Config.resolve (cfg : Config) (lib : TokenLibrary φ δ) (now : ℤ) (scope : Scope) :
    Except Raised TenantResolution :=
  resolveTenant lib now (scope.headers.get cfg.headerName) (scope.headers.get "authorization")
    cfg.trustHeader

/-- `TenantContextMiddleware.__call__`. -/
def Config.call (cfg : Config) (lib : TokenLibrary φ δ) (now : ℤ)
    (app : Context → Scope → α) (ctx : Context) (scope : Scope) : Reply α :=
  match scope.type with
  | .other => .app (app ctx scope)
  | _ =>
    match cfg.resolve lib now scope with
    | .ok resolution => .app (app (ctx.enter resolution.tenantId) scope)
    | .error (.app exc) => .refused exc (refuse scope exc)
    | .error .other => .raised

/-! ## What a resolution rests on -/

variable {lib : TokenLibrary φ δ} {now : ℤ} {headerValue authorization : Option Text}
  {trustHeader : Bool}

theorem resolveTenant_of_token {tenant : UUID}
    (h : tenantFromToken lib now (bearerToken authorization) = .ok (some tenant)) :
    resolveTenant lib now headerValue authorization trustHeader =
      (fromHeader headerValue).bind fun named =>
        if named ≠ none ∧ named ≠ some tenant then .error (.app .tenantMismatch)
        else .ok ⟨some tenant, .token⟩ := by
  unfold resolveTenant
  cases fromHeader headerValue with
  | error => rfl
  | ok =>
    rw [h]
    rfl

theorem resolveTenant_of_no_token
    (h : tenantFromToken lib now (bearerToken authorization) = .ok none) :
    resolveTenant lib now headerValue authorization trustHeader =
      (fromHeader headerValue).map fun named =>
        match named with
        | some tenant => if trustHeader then ⟨some tenant, .header⟩ else ⟨none, .none⟩
        | none => ⟨none, .none⟩ := by
  unfold resolveTenant
  cases fromHeader headerValue with
  | error => rfl
  | ok named =>
    rw [h]
    cases named <;> rfl

theorem tenantFromToken_of_resolve {cfg : Config} {scope : Scope} {tenant : UUID}
    (h : cfg.resolve lib now scope = .ok ⟨some tenant, .token⟩) :
    tenantFromToken lib now (bearerToken (scope.headers.get "authorization")) =
      .ok (some tenant) := by
  unfold Config.resolve at h
  cases hheader : fromHeader (scope.headers.get cfg.headerName) with
  | error =>
    rw [resolveTenant, hheader] at h
    cases h
  | ok named =>
    cases hfrom : tenantFromToken lib now (bearerToken (scope.headers.get "authorization")) with
    | error =>
      rw [resolveTenant, hheader, hfrom] at h
      cases h
    | ok found =>
      cases found with
      | none =>
        rw [resolveTenant_of_no_token hfrom, hheader] at h
        cases named with
        | none => cases h
        | some => cases hb : cfg.trustHeader <;> simp [hb, Except.map] at h
      | some =>
        simp only [resolveTenant_of_token hfrom, hheader, Except.bind] at h
        split at h <;> cases h
        rfl

end Tenancy
