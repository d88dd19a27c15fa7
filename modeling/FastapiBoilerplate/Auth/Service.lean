import FastapiBoilerplate.Lib.ReadCommitted
import FastapiBoilerplate.Lib.Run

/-!
# Refresh tokens: the calls and the table they share

`src/auth/service.py` over `src/repositories/refresh_token.py`: any number of `login`,
`refresh` and `logout` calls, each in a session of its own, against one `refresh_tokens`
table. A call advances one database statement at a time, so that everything between two
statements of one call can happen in between; the table is `Lib.ReadCommitted`'s.

What the environment decides comes in with the action: clock readings, the answer of
`users.get` (another table, which nothing here writes), the freshly minted token and family
identifier. `jwt.decode` is a parameter.

`login` stands for every call that opens a grant, `oauth_login` included: what precedes
`_issue_tokens` there reads and writes the `users` table only. The access token, the outbox
rows of the published events and `sessions_revoked` are not in the model: nothing reads them
back. `delete_expired` and `revoke_all_for_user` are called by none of the three.
-/

namespace Auth

open Lib.ReadCommitted

/-! ## The table -/

abbrev Uuid := BitVec 128
abbrev Token := String

/-- Microseconds since the epoch, in UTC. -/
abbrev Instant := ℤ

/-- A `datetime`, with an offset or without. -/
inductive Datetime
  | naive (wall : ℤ)
  | aware (instant : Instant)
  deriving DecidableEq

/-- `expires_at.replace(tzinfo=UTC)` where there is no offset. -/
def Datetime.inUtc : Datetime → Instant
  | .naive wall => wall
  | .aware instant => instant

inductive RevocationReason
  | rotated
  | logout
  | reuseDetected
  deriving DecidableEq

/-- A row of `refresh_tokens`. -/
structure RefreshToken where
  token : Token
  userId : Uuid
  familyId : Uuid
  expiresAt : Datetime
  revoked : Bool := false
  revokedAt : Option Instant := none
  revokedReason : Option RevocationReason := none
  deriving DecidableEq

/-- `_mark_revoked`. -/
def RefreshToken.markRevoked (reason : RevocationReason) (now : Instant)
    (stored : RefreshToken) : RefreshToken :=
  { stored with revoked := true, revokedAt := some now, revokedReason := some reason }

/-- The `WHERE` clause of `get_by_token`. -/
def hasToken (token : Token) (row : RefreshToken) : Bool := row.token == token

/-- The `WHERE` clause of `revoke_family`. -/
def isLiveIn (family : Uuid) (row : RefreshToken) : Bool :=
  row.familyId == family && !row.revoked

/-! ## The calls -/

inductive AppError
  | unauthorized (message : String)
  | forbidden (message : String)
  deriving DecidableEq

/-- The two kinds of token the application mints. -/
inductive TokenType
  | access
  | refresh
  deriving DecidableEq

structure Payload where
  type : Option TokenType

inductive Work
  | login (user : Uuid)
  | refresh (token : Token)
  | logout (token : Token)
  deriving DecidableEq

/-- How a call ended: with a token pair; with a family revoked; with nothing to revoke; with
    an error of its own; or with its transaction lost (cancelled, a deadlock's victim, a
    broken connection). -/
inductive Outcome
  | issued (row : RefreshToken)
  | ended (family : Uuid) (reason : RevocationReason)
  | unknown
  | refused (error : AppError)
  | aborted
  deriving DecidableEq

/-- What the call raises. A replay is refused in the words an unknown token is. -/
def Outcome.raises : Outcome → Option AppError
  | .ended _ .reuseDetected => some (.unauthorized "Refresh token is invalid or revoked")
  | .refused error => some error
  | _ => none

/-- Where a call stands, named after the statement it issues next. -/
inductive Phase
  /-- `get_by_token`; for a login, the `INSERT` of `tokens.create` -/
  | called
  /-- `revoke_family`: its `SELECT` -/
  | ending (family : Uuid) (reason : RevocationReason)
  /-- `revoke_family`: the `UPDATE`s of its flush, then `commit` -/
  | marking (family : Uuid) (reason : RevocationReason) (ids : List ℕ)
  /-- `revoke`: its `SELECT` -/
  | rotating (stored : RefreshToken)
  /-- `revoke`: the `UPDATE` of its flush -/
  | revoking (i : ℕ) (stored : RefreshToken)
  /-- `users.get` -/
  | reading (stored : RefreshToken)
  /-- the `INSERT` of `tokens.create` -/
  | issuing (stored : RefreshToken)
  /-- `commit` of a refresh -/
  | committing (stored successor : RefreshToken)
  /-- `commit` of a login -/
  | opening (row : RefreshToken)
  /-- `commit` of a logout that found no token -/
  | leaving
  | done (outcome : Outcome)
  deriving DecidableEq

structure Call where
  work : Work
  phase : Phase
  deriving DecidableEq

/-- What `refresh` makes of a row that is neither revoked nor absent, or of its absence:
    the error it raises, or the phase it goes on in. -/
def refreshFound (found : Option RefreshToken) (now : Instant) : Except AppError Phase :=
  match found with
  | none => .error (.unauthorized "Refresh token is invalid or revoked")
  | some stored =>
    if stored.revoked then .ok (.ending stored.familyId .reuseDetected)
    else if stored.expiresAt.inUtc < now then
      .error (.unauthorized "Refresh token has expired")
    else .ok (.rotating stored)

/-- What `logout` makes of it. -/
def logoutFound : Option RefreshToken → Phase
  | none => .leaving
  | some stored => .ending stored.familyId .logout

/-- What `refresh` makes of the account. -/
def userFound (stored : RefreshToken) : Option Bool → Except AppError Phase
  | none => .error (.unauthorized "User not found")
  | some false => .error (.forbidden "Account is inactive")
  | some true => .ok (.issuing stored)

/-- `refresh` before its first statement. -/
def Work.start (decodeToken : Token → Instant → Option Payload) (now : Instant) : Work → Phase
  | .refresh token =>
    match decodeToken token now with
    | none => .done (.refused (.unauthorized "Invalid refresh token"))
    | some payload =>
      if payload.type ≠ some .refresh then
        .done (.refused (.unauthorized "Invalid token type"))
      else .called
  | _ => .called

/-! ## The system -/

structure Sys where
  db : Db RefreshToken := {}
  calls : List Call := []

inductive Action
  | call (work : Work) (now : Instant)
  | getByToken (c : ℕ) (now : Instant)
  | selectAgain (c : ℕ)
  | revoke (c : ℕ) (now : Instant)
  | getUser (c : ℕ) (isActive : Option Bool)
  | create (c : ℕ) (token : Token) (expiresAt : Datetime) (uuid4 : Uuid)
  | selectFamily (c : ℕ)
  | markMember (c i : ℕ) (now : Instant)
  | commit (c : ℕ)
  | abort (c : ℕ)

namespace Sys

variable (s : Sys)

/-- The call `c` goes on in phase `p`, over the table `db`. -/
def goto (db : Db RefreshToken) (c : ℕ) (work : Work) (p : Phase) : Sys :=
  { db := db, calls := s.calls.set c ⟨work, p⟩ }

/-- An exception leaves the session, which closes without committing. -/
def fail (c : ℕ) (work : Work) (o : Outcome) : Sys :=
  s.goto (s.db.rollback c) c work (.done o)

def proceed (c : ℕ) (work : Work) : Except AppError Phase → Sys
  | .error e => s.fail c work (.refused e)
  | .ok p => s.goto s.db c work p

def getByToken (token : Token) : Option RefreshToken :=
  (s.db.find (hasToken token)).map (·.2)

/-- `uuid4` has not been used for a family before. -/
def freshFamily (uuid4 : Uuid) : Bool :=
  s.db.rows.all (·.familyId != uuid4) && s.db.inserts.all (·.2.familyId != uuid4)

/-- `tokens.create`. The `token` column is unique. -/
def create (c : ℕ) (row : RefreshToken) : Option (Db RefreshToken) :=
  s.db.insert c (hasToken row.token) row

/-- One statement of one call, if it is the statement the call issues next and the locks it
    needs are free. -/
def step (decodeToken : Token → Instant → Option Payload) : Action → Option Sys
  | .call work now =>
    some { s with calls := s.calls ++ [⟨work, work.start decodeToken now⟩] }
  | .getByToken c now =>
    match s.calls[c]? with
    | some ⟨.refresh token, .called⟩ =>
      some (s.proceed c (.refresh token) (refreshFound (s.getByToken token) now))
    | some ⟨.logout token, .called⟩ =>
      some (s.goto s.db c (.logout token) (logoutFound (s.getByToken token)))
    | _ => none
  | .selectAgain c =>
    match s.calls[c]? with
    | some ⟨.refresh token, .rotating stored⟩ =>
      -- the session hands back the object it has; `refresh` does not ask whether `revoke`
      -- found a row
      match s.db.find (hasToken token) with
      | some (i, _) => some (s.goto s.db c (.refresh token) (.revoking i stored))
      | none => some (s.goto s.db c (.refresh token) (.reading stored))
    | _ => none
  | .revoke c now =>
    match s.calls[c]? with
    | some ⟨work, .revoking i stored⟩ =>
      (s.db.update c i (RefreshToken.markRevoked .rotated now)).map fun db =>
        s.goto db c work (.reading stored)
    | _ => none
  | .getUser c isActive =>
    match s.calls[c]? with
    | some ⟨work, .reading stored⟩ => some (s.proceed c work (userFound stored isActive))
    | _ => none
  | .create c token expiresAt uuid4 =>
    match s.calls[c]? with
    | some ⟨work, .issuing stored⟩ =>
      let row : RefreshToken :=
        { token, userId := stored.userId, familyId := stored.familyId, expiresAt }
      (s.create c row).map fun db => s.goto db c work (.committing stored row)
    | some ⟨.login user, .called⟩ =>
      let row : RefreshToken := { token, userId := user, familyId := uuid4, expiresAt }
      if s.freshFamily uuid4 then
        (s.create c row).map fun db => s.goto db c (.login user) (.opening row)
      else none
    | _ => none
  | .selectFamily c =>
    match s.calls[c]? with
    | some ⟨work, .ending family reason⟩ =>
      some (s.goto s.db c work (.marking family reason (s.db.select (isLiveIn family))))
    | _ => none
  | .markMember c i now =>
    match s.calls[c]? with
    | some ⟨work, .marking family reason ids⟩ =>
      if i ∈ ids then
        (s.db.update c i (RefreshToken.markRevoked reason now)).map fun db =>
          s.goto db c work (.marking family reason (ids.erase i))
      else none
    | _ => none
  | .commit c =>
    match s.calls[c]? with
    | some ⟨work, .committing _ row⟩ =>
      some (s.goto (s.db.commit c) c work (.done (.issued row)))
    | some ⟨work, .opening row⟩ => some (s.goto (s.db.commit c) c work (.done (.issued row)))
    | some ⟨work, .marking family reason []⟩ =>
      some (s.goto (s.db.commit c) c work (.done (.ended family reason)))
    | some ⟨work, .leaving⟩ => some (s.goto (s.db.commit c) c work (.done .unknown))
    | _ => none
  | .abort c =>
    match s.calls[c]? with
    | some ⟨_, .done _⟩ => none
    | some ⟨work, _⟩ => some (s.fail c work .aborted)
    | none => none

end Sys
end Auth
