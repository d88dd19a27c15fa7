import FastapiBoilerplate.Concurrency.Preconditions
import FastapiBoilerplate.Lib.ReadCommitted
import FastapiBoilerplate.Lib.Run

/-!
# Profiles: conditional reads and writes of a versioned row

`ProfileService.update` (`src/users/service.py`) and the two routes over it
(`src/api/v1/users.py`): any number of `GET` and `PATCH` requests, each with a session of its own,
against one `users` table. A request advances one database statement at a time; between two
statements of one request anything can happen. The table is `Lib.ReadCommitted`'s.

`version` is the `version_id_col` of `User`. The unit of work writes the attributes that have
changed, and nothing at all where none has; an `UPDATE` names the version that was loaded and
counts it up, and one that matches no row is a `StaleDataError`.

A body has been validated when it gets here. `commits` records what every commit has made of a
row; no step reads it.
-/

namespace Users

open Lib Lib.ReadCommitted Concurrency

structure User where
  id : UUID
  email : Text
  role : Text
  isActive : Bool
  isVerified : Bool
  notificationChannel : Text
  notificationWebhookUrl : Option Text
  version : ℕ
  deriving DecidableEq

/-- `profile_etag`. -/
def profileEtag (user : User) : EntityTag := resourceVersionTag user.id user.version

/-- `ProfileUpdateRequest`: the fields that were set. -/
structure ProfileUpdateRequest where
  notificationChannel : Option Text := none
  notificationWebhookUrl : Option (Option Text) := none

namespace ProfileUpdateRequest

variable (changes : ProfileUpdateRequest)

/-- `not changes.model_dump(exclude_unset=True)`. -/
def isEmpty : Bool :=
  changes.notificationChannel.isNone && changes.notificationWebhookUrl.isNone

/-- The loop of `setattr`. -/
def apply (user : User) : User :=
  { user with
    notificationChannel := changes.notificationChannel.getD user.notificationChannel
    notificationWebhookUrl := changes.notificationWebhookUrl.getD user.notificationWebhookUrl }

end ProfileUpdateRequest

/-- `ProfileService.update` up to the commit: the row as it is to be written. -/
def update (user : User) (changes : ProfileUpdateRequest)
    (precondition noneMatch : Precondition) : Except AppException User := do
  let tag := profileEtag user
  IfMatch.requireMatch precondition tag
  let _ ← IfNoneMatch.evaluate noneMatch tag "PATCH"
  if changes.isEmpty then
    throw { statusCode := 422, errorCode := "UNPROCESSABLE_ENTITY"
            message := lit "Request body must contain at least one field to update" }
  return changes.apply user

/-- `UPDATE … SET` of what has changed between `loaded` and `changed`, and of the version. -/
def setChanged (loaded changed row : User) : User :=
  { row with
    notificationChannel :=
      if changed.notificationChannel = loaded.notificationChannel then row.notificationChannel
      else changed.notificationChannel
    notificationWebhookUrl :=
      if changed.notificationWebhookUrl = loaded.notificationWebhookUrl then
        row.notificationWebhookUrl
      else changed.notificationWebhookUrl
    version := loaded.version + 1 }

/-! ## Requests -/

inductive Request
  | get (user : UUID) (ifNoneMatch : List Text)
  | patch (user : UUID) (changes : ProfileUpdateRequest) (ifMatch ifNoneMatch : List Text)

/-- Whose profile it is: the bearer's. -/
def Request.user : Request → UUID
  | .get user _ => user
  | .patch user _ _ _ => user

/-- `UserProfileResponse` with its `ETag`, the same without a body, an error, or nothing. -/
inductive Response
  | profile (etag : Text) (user : User)
  | notModified (etag : Text)
  | refused (error : AppException)
  | aborted
  deriving DecidableEq

/-- `StaleDataError`, as the route answers it. -/
def modifiedMeanwhile : AppException :=
  { statusCode := 412, errorCode := "PRECONDITION_FAILED"
    message := lit "The resource was modified by another request while this update was being applied" }

/-- Where a request stands. -/
inductive Phase
  /-- dependencies are being resolved, or the handler is about to run -/
  | received
  /-- the flush of `commit` -/
  | writing (changed : User)
  /-- `COMMIT` -/
  | committing (changed : User)
  | done (response : Response)
  deriving DecidableEq

structure Call where
  request : Request
  /-- What `get_current_user` loaded, and where it stands in the table. -/
  loaded : Option (ℕ × User) := none
  phase : Phase := .received

/-- What a commit has made of a row. -/
structure Commit where
  call : ℕ
  place : ℕ
  row : User

structure Sys where
  db : Db User
  calls : List Call := []
  commits : List Commit := []

inductive Action
  | request (request : Request)
  /-- `get_current_user`. -/
  | load (c : ℕ)
  /-- The handler, to its first statement. -/
  | handle (c : ℕ)
  | flush (c : ℕ)
  | commit (c : ℕ)
  /-- The request is cancelled, or its connection breaks. -/
  | abort (c : ℕ)

/-- `get_current_user`, of a bearer whose token has been verified. -/
def currentUser (found : Option (ℕ × User)) : Except AppException (ℕ × User) :=
  match found with
  | none =>
    .error { statusCode := 401, errorCode := "UNAUTHORIZED", message := lit "User not found"
             headers := [("WWW-Authenticate", lit "Bearer")] }
  | some (i, user) =>
    if user.isActive then .ok (i, user)
    else .error { statusCode := 403, errorCode := "FORBIDDEN", message := lit "Inactive user" }

/-- `read_profile`. -/
def readProfile [Unicode] (user : User) (ifNoneMatch : List Text) : Response :=
  let tag := profileEtag user
  match (IfNoneMatch.ofLines ifNoneMatch).bind (IfNoneMatch.evaluate · tag "GET") with
  | .error error => .refused error
  | .ok .notModified => .notModified tag.serialize
  | .ok .proceed => .profile tag.serialize user

/-- `update_profile`, up to the commit. -/
def updateProfile [Unicode] (user : User) (changes : ProfileUpdateRequest)
    (ifMatch ifNoneMatch : List Text) : Except AppException User := do
  let precondition ← IfMatch.ofLines ifMatch
  let noneMatch ← IfNoneMatch.ofLines ifNoneMatch
  update user changes precondition noneMatch

namespace Sys

variable (s : Sys)

def setPhase (c : ℕ) (call : Call) (phase : Phase) : Sys :=
  { s with calls := s.calls.set c { call with phase } }

/-- The session is closed without a commit. -/
def fail (c : ℕ) (call : Call) (response : Response) : Sys :=
  { s with db := s.db.rollback c, calls := s.calls.set c { call with phase := .done response } }

/-- What the commit of `c` makes of the row at `i`. -/
def written (c i : ℕ) : List Commit :=
  match s.db.slots[i]? with
  | some ⟨_, some (t, row)⟩ => if t = c then [⟨c, i, row⟩] else []
  | _ => []

/-- The `UPDATE` of a flush. It waits while the row is locked. -/
def flush (c : ℕ) (call : Call) (i : ℕ) (loaded changed : User) : Option Sys :=
  if changed = loaded then some (s.setPhase c call (.committing changed))
  else
    (s.db.slots[i]?.bind (Slot.current c)).bind fun row =>
      if row.version = loaded.version then
        (s.db.update c i (setChanged loaded changed)).map fun db =>
          { s with db }.setPhase c call
            (.committing { changed with version := loaded.version + 1 })
      else some (s.fail c call (.refused modifiedMeanwhile))

def step [Unicode] : Action → Option Sys
  | .request request => some { s with calls := s.calls ++ [{ request }] }
  | .load c =>
    match s.calls[c]? with
    | some ⟨request, none, .received⟩ =>
      match currentUser (s.db.find fun row => row.id == request.user) with
      | .error error => some (s.fail c ⟨request, none, .received⟩ (.refused error))
      | .ok found => some { s with calls := s.calls.set c ⟨request, some found, .received⟩ }
    | _ => none
  | .handle c =>
    match s.calls[c]? with
    | some ⟨.get user ifNoneMatch, some (i, loaded), .received⟩ =>
      some (s.fail c ⟨.get user ifNoneMatch, some (i, loaded), .received⟩
        (readProfile loaded ifNoneMatch))
    | some ⟨.patch user changes ifMatch ifNoneMatch, some (i, loaded), .received⟩ =>
      let call : Call := ⟨.patch user changes ifMatch ifNoneMatch, some (i, loaded), .received⟩
      match updateProfile loaded changes ifMatch ifNoneMatch with
      | .error error => some (s.fail c call (.refused error))
      | .ok changed => some (s.setPhase c call (.writing changed))
    | _ => none
  | .flush c =>
    match s.calls[c]? with
    | some ⟨request, some (i, loaded), .writing changed⟩ =>
      s.flush c ⟨request, some (i, loaded), .writing changed⟩ i loaded changed
    | _ => none
  | .commit c =>
    match s.calls[c]? with
    | some ⟨request, some (i, loaded), .committing changed⟩ =>
      some { db := s.db.commit c
             calls := s.calls.set c ⟨request, some (i, loaded),
               .done (.profile (profileEtag changed).serialize changed)⟩
             commits := s.commits ++ s.written c i }
    | _ => none
  | .abort c =>
    match s.calls[c]? with
    | some ⟨_, _, .done _⟩ => none
    | some call => some (s.fail c call .aborted)
    | none => none

end Sys
end Users
