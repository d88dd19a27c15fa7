import FastapiBoilerplate.Lib.Dict
import FastapiBoilerplate.Lib.Json
import FastapiBoilerplate.Lib.Uuid

/-!
# Access tokens

`verify_access_token` of `src/auth/utils.py`: what a signed token can still be wrong about. The
signature and the expiry are `jwt.decode`'s, which is a parameter and answers the payload, a JSON
object; so is `datetime.fromtimestamp`, whose range error is the one failure that is not an
`InvalidAccessTokenError`.
-/

namespace Auth

open Lib

/-- What the token functions ask of the libraries. -/
structure TokenLibrary (φ δ : Type) where
  /-- `jwt.decode` under the application's key, at a reading of the clock; `none` is `JWTError`. -/
  decode : ℤ → Text → Option (Dict Text (Json φ))
  /-- `datetime.fromtimestamp(_, tz=UTC)`; `none` is its range error. -/
  fromTimestamp : Json φ → Option δ

structure AccessTokenClaims (δ : Type) where
  subject : UUID
  email : Text
  role : Text
  expiresAt : δ
  tenantId : Option UUID
deriving DecidableEq

inductive VerifyError
  /-- `InvalidAccessTokenError`. -/
  | invalid (message : Text)
  /-- Another exception. -/
  | raised
deriving DecidableEq

variable {φ δ : Type}

/-- `value if isinstance(value, str) else None`. -/
def asText : Option (Json φ) → Option Text
  | some (.str text) => some text
  | _ => none

/-- `isinstance(value, int | float)`; a `bool` is an `int`. -/
def isNumber : Json φ → Bool
  | .int _ | .float _ | .bool _ => true
  | _ => false

/-- The `sub` claim. -/
def subjectOf (payload : Dict Text (Json φ)) : Except VerifyError UUID :=
  match asText (payload.get (lit "sub")) with
  | none => .error (.invalid (lit "Token is missing a subject"))
  | some text =>
    match UUID.parse text with
    | none => .error (.invalid (lit "Token subject is not a valid user id"))
    | some subject => .ok subject

/-- The `exp` claim, as the number it is. -/
def expiryOf (payload : Dict Text (Json φ)) : Except VerifyError (Json φ) :=
  match payload.get (lit "exp") with
  | some value => if isNumber value then .ok value else .error (.invalid (lit "Token has no expiry"))
  | none => .error (.invalid (lit "Token has no expiry"))

/-- The `tid` claim. -/
def tenantOf (payload : Dict Text (Json φ)) : Except VerifyError (Option UUID) :=
  match payload.get (lit "tid") with
  | none | some .null => .ok none
  | some (.str text) =>
    match UUID.parse text with
    | none => .error (.invalid (lit "Token tenant is not a valid tenant id"))
    | some tenant => .ok (some tenant)
  | some _ => .error (.invalid (lit "Token tenant is not a valid tenant id"))

/-- `verify_access_token`, at a reading of the clock. -/
def verifyAccessToken (lib : TokenLibrary φ δ) (now : ℤ) (token : Text) :
    Except VerifyError (AccessTokenClaims δ) :=
  match lib.decode now token with
  | none => .error (.invalid (lit "Invalid or expired token"))
  | some payload => do
    if asText (payload.get (lit "type")) ≠ some (lit "access") then
      throw (.invalid (lit "Invalid token type"))
    let subject ← subjectOf payload
    let rawExpiry ← expiryOf payload
    let tenantId ← tenantOf payload
    match lib.fromTimestamp rawExpiry with
    | none => throw .raised
    | some expiresAt =>
      return {
        subject
        email := (asText (payload.get (lit "email"))).getD []
        role := (asText (payload.get (lit "role"))).getD []
        expiresAt
        tenantId }

end Auth
