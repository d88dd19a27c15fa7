import FastapiBoilerplate.Auth.Service

/-!
# What one refresh does to the table

`AuthService.refresh` from beginning to end, with the database to itself: a session that sees its
own writes, and a committed table that only `commit` changes. Where the call raises, the session is
closed and what was not committed is gone. Three of the refusals come after the revocation has been
flushed, and the refusal of a replay after it has been committed; `refresh_frame` says what is left
in each case.

`alone_run` is the bridge to the system of interleaved calls: a call that has the system to itself
can go through its statements to the end that is computed here.
-/

namespace Auth

open List

/-- A session: the committed table, and the table as its own statements see it. -/
structure Session where
  committed : List RefreshToken
  view : List RefreshToken

/-- What the call asks of its surroundings: `jwt.decode`, the clock where it is read, the accounts,
    and the token it mints. -/
structure Environment where
  decodeToken : Token → Instant → Option Payload
  calledAt : Instant
  readAt : Instant
  /-- When the row at each place is marked. -/
  markedAt : ℕ → Instant
  /-- `users.get`: whether the account is active, if there is one. -/
  user : Uuid → Option Bool
  newToken : Token
  newExpiry : Datetime

/-- What leaves `refresh` instead of a token pair. -/
inductive Raised
  | app (error : AppError)
  /-- The `token` column is unique. -/
  | integrityError

namespace Session

variable (session : Session)

/-- `get_by_token`. -/
def getByToken (token : Token) : Option RefreshToken := session.view.find? (hasToken token)

/-- `revoke`. -/
def revoke (token : Token) (reason : RevocationReason) (now : ℕ → Instant) : Session :=
  match session.view.findIdx? (hasToken token) with
  | none => session
  | some i => { session with view := session.view.modify i (RefreshToken.markRevoked reason (now i)) }

/-- `revoke_family`. -/
def revokeFamily (family : Uuid) (reason : RevocationReason) (now : ℕ → Instant) : Session :=
  { session with
    view := session.view.mapIdx fun i row =>
      if isLiveIn family row then row.markRevoked reason (now i) else row }

/-- `tokens.create`; `none` is the `IntegrityError` of the flush. -/
def create (row : RefreshToken) : Option Session :=
  if session.view.any (hasToken row.token) then none
  else some { session with view := session.view ++ [row] }

/-- `uow.commit`. -/
def commit : Session := { session with committed := session.view }

end Session

variable (env : Environment)

/-- `_handle_reuse`. -/
def handleReuse (stored : RefreshToken) (session : Session) : Raised × Session :=
  (.app (.unauthorized "Refresh token is invalid or revoked"),
    (session.revokeFamily stored.familyId .reuseDetected env.markedAt).commit)

/-- The row that takes the place of `stored`. -/
def Environment.successor (stored : RefreshToken) : RefreshToken :=
  { token := env.newToken, userId := stored.userId, familyId := stored.familyId
    expiresAt := env.newExpiry }

/-- `_issue_tokens` in the family of the row that is rotated. -/
def issueTokens (stored : RefreshToken) (session : Session) : Option (RefreshToken × Session) :=
  (session.create (env.successor stored)).map fun session => (env.successor stored, session)

/-- `refresh`. -/
def refresh (token : Token) (session : Session) : Except Raised RefreshToken × Session :=
  match env.decodeToken token env.calledAt with
  | none => (.error (.app (.unauthorized "Invalid refresh token")), session)
  | some payload =>
    if payload.type ≠ some .refresh then
      (.error (.app (.unauthorized "Invalid token type")), session)
    else
      match session.getByToken token with
      | none => (.error (.app (.unauthorized "Refresh token is invalid or revoked")), session)
      | some stored =>
        if stored.revoked then
          let (raised, session) := handleReuse env stored session
          (.error raised, session)
        else if stored.expiresAt.inUtc < env.readAt then
          (.error (.app (.unauthorized "Refresh token has expired")), session)
        else
          let session := session.revoke token .rotated env.markedAt
          match env.user stored.userId with
          | none => (.error (.app (.unauthorized "User not found")), session)
          | some false => (.error (.app (.forbidden "Account is inactive")), session)
          | some true =>
            match issueTokens env stored session with
            | none => (.error .integrityError, session)
            | some (row, session) => (.ok row, session.commit)

/-- A request that calls `refresh`: what it answers, and the table it leaves. -/
def refreshAlone (rows : List RefreshToken) (token : Token) :
    Except Raised RefreshToken × List RefreshToken :=
  let (result, session) := refresh env token ⟨rows, rows⟩
  (result, session.committed)

/-! ## The three ends -/

variable {env} {rows : List RefreshToken} {token : Token} {stored : RefreshToken}

/-- The token verifies as a refresh token, and this is its row. -/
structure Presented (env : Environment) (rows : List RefreshToken) (token : Token)
    (stored : RefreshToken) : Prop where
  verifies : ∃ payload, env.decodeToken token env.calledAt = some payload ∧
    payload.type = some .refresh
  row : rows.find? (hasToken token) = some stored

/-- Its row is live and unexpired, and its user is active. -/
structure Redeemable (env : Environment) (stored : RefreshToken) : Prop where
  live : stored.revoked = false
  unexpired : ¬ stored.expiresAt.inUtc < env.readAt
  active : env.user stored.userId = some true

/-- Every row of the family is revoked, and nothing else has changed. -/
def FamilyEnded (family : Uuid) (rows rows' : List RefreshToken) : Prop :=
  List.Forall₂ (fun row row' : RefreshToken =>
    if row.familyId = family then
      row'.revoked = true ∧ row'.familyId = family ∧ row'.token = row.token
    else row' = row) rows rows'

/-- One row is revoked in its place, and one live row of its family is added. -/
def Rotated (stored successor : RefreshToken) (rows rows' : List RefreshToken) : Prop :=
  ∃ i now, rows[i]? = some stored ∧
    rows' = rows.modify i (RefreshToken.markRevoked .rotated now) ++ [successor] ∧
    successor.familyId = stored.familyId ∧ successor.revoked = false

theorem familyEnded_mapIdx (family : Uuid) (reason : RevocationReason) (now : ℕ → Instant)
    (rows : List RefreshToken) :
    FamilyEnded family rows (rows.mapIdx fun i row =>
      if isLiveIn family row then row.markRevoked reason (now i) else row) := by
  induction rows generalizing now with
  | nil => exact .nil
  | cons row rows ih =>
    rw [mapIdx_cons]
    refine .cons ?_ (ih fun i => now (i + 1))
    by_cases hfamily : row.familyId = family
    · rw [if_pos hfamily]
      cases hrevoked : row.revoked with
      | true => simp [isLiveIn, hrevoked, hfamily]
      | false => simp [isLiveIn, hrevoked, hfamily, RefreshToken.markRevoked]
    · rw [if_neg hfamily]
      simp [isLiveIn, hfamily]

theorem refreshAlone_reused (h : Presented env rows token stored) (hrevoked : stored.revoked = true) :
    (refreshAlone env rows token).1 =
        .error (.app (.unauthorized "Refresh token is invalid or revoked")) ∧
      FamilyEnded stored.familyId rows (refreshAlone env rows token).2 := by
  obtain ⟨⟨payload, hdecode, htype⟩, hrow⟩ := h
  simp only [refreshAlone, refresh, hdecode, htype, Session.getByToken, hrow, hrevoked, handleReuse]
  exact ⟨rfl, familyEnded_mapIdx _ _ _ _⟩

theorem findIdx?_of_find? {p : RefreshToken → Bool} (h : rows.find? p = some stored) :
    ∃ i, rows.findIdx? p = some i ∧ rows[i]? = some stored := by
  rw [find?_eq_bind_findIdx?_getElem?] at h
  exact Option.bind_eq_some_iff.mp h

theorem any_hasToken_modify (i : ℕ) (reason : RevocationReason) (now : Instant) (token : Token) :
    (rows.modify i (RefreshToken.markRevoked reason now)).any (hasToken token) =
      rows.any (hasToken token) := by
  induction rows generalizing i with
  | nil => simp
  | cons row rows ih =>
    cases i with
    | zero => simp [hasToken, RefreshToken.markRevoked]
    | succ i => simp [ih i]

theorem refreshAlone_redeemed (h : Presented env rows token stored)
    (hredeem : Redeemable env stored) (hfresh : ∀ row ∈ rows, row.token ≠ env.newToken) :
    ∃ successor, (refreshAlone env rows token).1 = .ok successor ∧
      Rotated stored successor rows (refreshAlone env rows token).2 := by
  obtain ⟨⟨payload, hdecode, htype⟩, hrow⟩ := h
  obtain ⟨hlive, hunexpired, hactive⟩ := hredeem
  obtain ⟨i, hidx, hget⟩ := findIdx?_of_find? hrow
  have hclash : rows.any (hasToken env.newToken) = false := by
    simpa [hasToken] using hfresh
  simp only [refreshAlone, refresh, hdecode, htype, Session.getByToken, hrow, hlive, hunexpired,
    Session.revoke, hidx, hactive, issueTokens, Session.create, Environment.successor,
    any_hasToken_modify, hclash]
  exact ⟨_, rfl, i, env.markedAt i, hget, rfl, rfl, rfl⟩

theorem refreshAlone_refused (hreused : ∀ stored, Presented env rows token stored →
      stored.revoked = false)
    (hredeemed : ∀ stored, Presented env rows token stored → ¬ Redeemable env stored) :
    ∃ raised, refreshAlone env rows token = (.error raised, rows) := by
  unfold refreshAlone refresh
  cases hdecode : env.decodeToken token env.calledAt with
  | none => exact ⟨_, rfl⟩
  | some payload =>
    by_cases htype : payload.type = some .refresh
    · cases hrow : rows.find? (hasToken token) with
      | none => simp [htype, Session.getByToken, hrow]
      | some stored =>
        have hpresented : Presented env rows token stored :=
          ⟨⟨payload, hdecode, htype⟩, hrow⟩
        have hlive := hreused stored hpresented
        by_cases hexpired : stored.expiresAt.inUtc < env.readAt
        · simp [htype, Session.getByToken, hrow, hlive, hexpired]
        -- the revocation is flushed by now, and not committed
        have hcommitted (reason : RevocationReason) :
            ((⟨rows, rows⟩ : Session).revoke token reason env.markedAt).committed = rows := by
          unfold Session.revoke
          split <;> rfl
        cases hactive : env.user stored.userId with
        | none => simp [htype, Session.getByToken, hrow, hlive, hexpired, hactive, hcommitted]
        | some active =>
          cases active with
          | false => simp [htype, Session.getByToken, hrow, hlive, hexpired, hactive, hcommitted]
          | true => exact absurd ⟨hlive, hexpired, hactive⟩ (hredeemed stored hpresented)
    · simp [htype]

/-- **What a refresh leaves.** A revoked token ends its family and raises 401; one that can be
    redeemed revokes its own row and adds one live row to its family; anything else raises and
    leaves the table as it was. `hfresh` is what `uuid4` is for: the minted token carries one. -/
theorem refresh_frame (env : Environment) (rows : List RefreshToken) (token : Token)
    (hfresh : ∀ row ∈ rows, row.token ≠ env.newToken) :
    (∀ stored, Presented env rows token stored → stored.revoked = true →
      (∃ message, (refreshAlone env rows token).1 = .error (.app (.unauthorized message))) ∧
      FamilyEnded stored.familyId rows (refreshAlone env rows token).2) ∧
    (∀ stored, Presented env rows token stored → Redeemable env stored →
      ∃ successor, (refreshAlone env rows token).1 = .ok successor ∧
        Rotated stored successor rows (refreshAlone env rows token).2) ∧
    ((∀ stored, Presented env rows token stored →
        stored.revoked = false ∧ ¬ Redeemable env stored) →
      ∃ raised, refreshAlone env rows token = (.error raised, rows)) := by
  refine ⟨?_, ?_, ?_⟩
  · intro stored hpresented hrevoked
    obtain ⟨hraised, hended⟩ := refreshAlone_reused hpresented hrevoked
    exact ⟨⟨_, hraised⟩, hended⟩
  · intro stored hpresented hredeem
    exact refreshAlone_redeemed hpresented hredeem hfresh
  · intro hother
    exact refreshAlone_refused (fun stored h => (hother stored h).1)
      fun stored h => (hother stored h).2

/-- The first refresh of a grant. -/
theorem refresh_frame_rotation :
    let env : Environment :=
      { decodeToken := fun _ _ => some ⟨some .refresh⟩, calledAt := 0, readAt := 0
        markedAt := fun _ => 1, user := fun _ => some true, newToken := "second"
        newExpiry := .aware 20 }
    let row : RefreshToken :=
      { token := "first", userId := 5, familyId := 7, expiresAt := .aware 10 }
    (∀ stored ∈ [row], stored.token ≠ env.newToken) ∧ Presented env [row] "first" row ∧
      Redeemable env row ∧ ∃ successor, (refreshAlone env [row] "first").1 = .ok successor ∧
        Rotated row successor [row] (refreshAlone env [row] "first").2 := by
  intro env row
  have hfresh : ∀ stored ∈ [row], stored.token ≠ env.newToken := by decide
  have hpresented : Presented env [row] "first" row := ⟨⟨_, rfl, rfl⟩, rfl⟩
  have hredeem : Redeemable env row := ⟨rfl, by decide, rfl⟩
  exact ⟨hfresh, hpresented, hredeem,
    (refresh_frame env [row] "first" hfresh).2.1 row hpresented hredeem⟩

/-! ## The same call in the system -/

open Lib Lib.ReadCommitted Db

/-- What the system writes down of an answer. The failed flush of an `INSERT` ends a call the way
    a broken connection does. -/
def Outcome.Answers (outcome : Outcome) : Except Raised RefreshToken → Prop
  | .ok row => outcome = .issued row
  | .error (.app error) => outcome.raises = some error
  | .error .integrityError => outcome = .aborted

/-- One call, and nothing else. -/
def sole (db : Db RefreshToken) (token : Token) (phase : Phase) : Sys :=
  { db := db, calls := [⟨.refresh token, phase⟩] }

/-- The call can go on from one phase and table to another. -/
def Goes (env : Environment) (token : Token) (db : Db RefreshToken) (phase : Phase)
    (db' : Db RefreshToken) (phase' : Phase) : Prop :=
  Run (Sys.step · env.decodeToken) Always (sole db token phase) (sole db' token phase')

variable {db db' : Db RefreshToken} {phase phase' : Phase}

theorem Goes.step (a : Action)
    (h : (sole db token phase).step env.decodeToken a = some (sole db' token phase')) :
    Goes env token db phase db' phase' :=
  .single trivial h

theorem find_quiet (h : rows.find? (hasToken token) = some stored) :
    ∃ i < rows.length, rows.findIdx? (hasToken token) = some i ∧
      (quiet rows).find (hasToken token) = some (i, stored) := by
  obtain ⟨i, hidx, hget⟩ := findIdx?_of_find? h
  refine ⟨i, lt_of_getElem? hget, hidx, find_eq_some.mpr ?_⟩
  rw [rows_quiet]
  exact ⟨hidx, hget⟩

theorem step_getByToken (env : Environment) (rows : List RefreshToken) (token : Token)
    (now : Instant) :
    (sole (quiet rows) token .called).step env.decodeToken (.getByToken 0 now) =
      some ((sole (quiet rows) token .called).proceed 0 (.refresh token)
        (refreshFound (rows.find? (hasToken token)) now)) := by
  have hfound : (sole (quiet rows) token .called).getByToken token =
      rows.find? (hasToken token) := by
    rw [Sys.getByToken, sole]
    cases hrow : rows.find? (hasToken token) with
    | none =>
      have hidx : rows.findIdx? (hasToken token) = none :=
        findIdx?_eq_none_iff.mpr fun x hx => by simpa using find?_eq_none.mp hrow x hx
      simp [find, rows_quiet, hidx]
    | some =>
      obtain ⟨i, -, -, hfind⟩ := find_quiet hrow
      rw [hfind, Option.map_some]
  rw [← hfound]
  rfl

/-- The flush of `revoke_family`, one member after the other. -/
theorem Goes.mark {family : Uuid} {reason : RevocationReason} {ids : List ℕ} (hsole : Db.Sole 0 db)
    (hids : ∀ i ∈ ids, i < db.slots.length) :
    ∃ db', Goes env token db (.marking family reason ids) db' (.marking family reason []) ∧
      Db.Sole 0 db' ∧ db'.latest = ids.foldl
        (fun rows i => rows.modify i (RefreshToken.markRevoked reason (env.markedAt i)))
        db.latest := by
  induction ids generalizing db with
  | nil => exact ⟨db, .refl, hsole, rfl⟩
  | cons i ids ih =>
    obtain ⟨db₁, hupdate, hsole₁, -, hlength, hlatest⟩ := hsole.update
      (hids i mem_cons_self) (RefreshToken.markRevoked reason (env.markedAt i))
    have hstep : Goes env token db (.marking family reason (i :: ids)) db₁
        (.marking family reason ids) := by
      apply Goes.step (.markMember 0 i (env.markedAt i))
      simp [Sys.step, sole, hupdate, Sys.goto]
    obtain ⟨db', hrest, hsole', hlatest'⟩ := ih hsole₁ fun j hj => by
      rw [hlength]
      exact hids j (mem_cons_of_mem i hj)
    exact ⟨db', hstep.trans hrest, hsole', by rw [hlatest', hlatest, foldl_cons]⟩

/-- Marking the selected rows one by one is marking the live rows of the family. -/
theorem foldl_select (family : Uuid) (reason : RevocationReason) (now : ℕ → Instant) :
    ((quiet rows).select (isLiveIn family)).foldl
        (fun rows i => rows.modify i (RefreshToken.markRevoked reason (now i))) rows =
      rows.mapIdx fun i row =>
        if isLiveIn family row then row.markRevoked reason (now i) else row := by
  apply ext_getElem?
  intro j
  have hnodup : ((quiet rows).select (isLiveIn family)).Nodup :=
    List.Nodup.filter _ nodup_range
  rw [getElem?_foldl_modify hnodup, getElem?_mapIdx]
  simp only [mem_select, rows_quiet]
  cases hj : rows[j]? with
  | none => simp
  | some row => by_cases hlive : isLiveIn family row = true <;> simp [hlive]

/-- The end a call comes to. -/
def Reaches (env : Environment) (token : Token) (db : Db RefreshToken) (phase : Phase)
    (answer : Except Raised RefreshToken × List RefreshToken) : Prop :=
  ∃ db' outcome, Goes env token db phase db' (.done outcome) ∧ outcome.Answers answer.1 ∧
    db'.rows = answer.2

theorem Reaches.of_goes {answer : Except Raised RefreshToken × List RefreshToken}
    (h : Goes env token db phase db' phase') (hrest : Reaches env token db' phase' answer) :
    Reaches env token db phase answer := by
  obtain ⟨db'', outcome, hgoes, hend⟩ := hrest
  exact ⟨db'', outcome, h.trans hgoes, hend⟩

/-- A refusal closes the session, and what it has written is gone. -/
theorem Reaches.refused {error : AppError} (hrows : db.rows = rows) (a : Action)
    (h : (sole db token phase).step env.decodeToken a =
      some ((sole db token phase).fail 0 (.refresh token) (.refused error))) :
    Reaches env token db phase (.error (.app error), rows) :=
  ⟨db.rollback 0, .refused error, .step a h, rfl, rows_rollback.trans hrows⟩

/-- A replay: the family is marked and committed before the call raises. -/
theorem Reaches.reused :
    Reaches env token (quiet rows) (.ending stored.familyId .reuseDetected)
      (.error (handleReuse env stored ⟨rows, rows⟩).1,
        (handleReuse env stored ⟨rows, rows⟩).2.committed) := by
  have hids : ∀ i ∈ (quiet rows).select (isLiveIn stored.familyId),
      i < (quiet rows).slots.length := by
    intro i hi
    obtain ⟨row, hrow, -⟩ := mem_select.mp hi
    obtain ⟨slot, hslot, -⟩ := slot_of_row hrow
    exact lt_of_getElem? hslot
  obtain ⟨db', hmark, hsole, hlatest⟩ := Goes.mark (Db.Sole.quiet 0 rows) hids
  refine .of_goes (.step (.selectFamily 0) rfl) (.of_goes hmark ?_)
  refine ⟨db'.commit 0, .ended stored.familyId .reuseDetected, .step (.commit 0) rfl, rfl, ?_⟩
  rw [hsole.rows_commit, hlatest, latest_quiet, foldl_select]
  rfl

/-- A rotation, from the `SELECT` of `revoke` on. -/
theorem Reaches.rotated (hrow : rows.find? (hasToken token) = some stored)
    (hlive : stored.revoked = false) (hunexpired : ¬ stored.expiresAt.inUtc < env.readAt)
    (hpayload : ∃ payload, env.decodeToken token env.calledAt = some payload ∧
      payload.type = some .refresh) :
    Reaches env token (quiet rows) (.rotating stored) (refreshAlone env rows token) := by
  obtain ⟨payload, hdecode, htype⟩ := hpayload
  obtain ⟨i, hlt, hidx, hfind⟩ := find_quiet hrow
  obtain ⟨db', hupdate, hsole, hinserts, -, hlatest⟩ := (Db.Sole.quiet 0 rows).update
    (i := i) (by simpa [quiet] using hlt) (RefreshToken.markRevoked .rotated (env.markedAt i))
  rw [latest_quiet] at hlatest
  have hrows : db'.rows = rows := (rows_update hupdate).trans (rows_quiet rows)
  have hselect : Goes env token (quiet rows) (.rotating stored) (quiet rows)
      (.revoking i stored) := by
    apply Goes.step (.selectAgain 0)
    simp [Sys.step, sole, hfind, Sys.goto]
  have hrevoke : Goes env token (quiet rows) (.revoking i stored) db' (.reading stored) := by
    apply Goes.step (.revoke 0 (env.markedAt i))
    simp [Sys.step, sole, hupdate, Sys.goto]
  refine .of_goes (hselect.trans hrevoke) ?_
  simp only [refreshAlone, refresh, hdecode, htype, Session.getByToken, hrow, hlive, hunexpired,
    Session.revoke, hidx]
  cases hactive : env.user stored.userId with
  | none => exact .refused hrows (.getUser 0 none) rfl
  | some active =>
    cases active with
    | false => exact .refused hrows (.getUser 0 (some false)) rfl
    | true =>
      have huser : Goes env token db' (.reading stored) db' (.issuing stored) :=
        .step (.getUser 0 (some true)) rfl
      refine .of_goes huser ?_
      -- nobody else has inserted anything, so the unique index sees the rows of the table
      have hstored : (db'.rows.any (hasToken env.newToken) ||
          db'.inserts.any fun w => hasToken env.newToken w.2) =
            rows.any (hasToken env.newToken) := by
        rw [hrows, hinserts]
        simp [quiet]
      simp only [issueTokens, Session.create, any_hasToken_modify]
      cases hclash : rows.any (hasToken env.newToken) with
      | true =>
        simp only [Environment.successor, hclash]
        exact ⟨db'.rollback 0, .aborted, .step (.abort 0) rfl, rfl, rows_rollback.trans hrows⟩
      | false =>
        obtain ⟨db'', hinsert, hsole, hlatest'⟩ :=
          hsole.insert (env.successor stored) (hstored.trans hclash)
        have hcreate : Goes env token db' (.issuing stored) db''
            (.committing stored (env.successor stored)) := by
          apply Goes.step (.create 0 env.newToken env.newExpiry 0)
          simp only [Environment.successor] at hinsert
          simp [Sys.step, sole, Sys.create, hinsert, Sys.goto, Environment.successor]
        simp only [show (env.successor stored).token = env.newToken from rfl, hclash]
        refine .of_goes hcreate ⟨db''.commit 0, _, .step (.commit 0) rfl, rfl, ?_⟩
        rw [hsole.rows_commit, hlatest', hlatest]
        rfl

/-- **A call that has the system to itself** can go through its statements to the end computed by
    `refreshAlone`. -/
theorem alone_run (env : Environment) (rows : List RefreshToken) (token : Token) :
    ∃ db outcome, Run (Sys.step · env.decodeToken) Always ⟨quiet rows, []⟩
        (sole db token (.done outcome)) ∧
      outcome.Answers (refreshAlone env rows token).1 ∧
      db.rows = (refreshAlone env rows token).2 := by
  have hcall : Run (Sys.step · env.decodeToken) Always ⟨quiet rows, []⟩
      (sole (quiet rows) token ((Work.refresh token).start env.decodeToken env.calledAt)) :=
    .single (a := .call (.refresh token) env.calledAt) trivial rfl
  suffices h : Reaches env token (quiet rows)
      ((Work.refresh token).start env.decodeToken env.calledAt) (refreshAlone env rows token) by
    obtain ⟨db, outcome, hgoes, hend⟩ := h
    exact ⟨db, outcome, hcall.trans hgoes, hend⟩
  cases hdecode : env.decodeToken token env.calledAt with
  | none =>
    have hstart : (Work.refresh token).start env.decodeToken env.calledAt =
        .done (.refused (.unauthorized "Invalid refresh token")) := by
      simp [Work.start, hdecode]
    rw [hstart, refreshAlone, refresh, hdecode]
    exact ⟨quiet rows, _, .refl, rfl, rows_quiet rows⟩
  | some payload =>
    by_cases htype : payload.type = some .refresh
    · have hstart : (Work.refresh token).start env.decodeToken env.calledAt = .called := by
        simp [Work.start, hdecode, htype]
      rw [hstart]
      -- the step after the lookup branches as `refresh` does
      have hfound := step_getByToken env rows token env.readAt
      cases hrow : rows.find? (hasToken token) with
      | none =>
        simp only [refreshAlone, refresh, hdecode, htype, Session.getByToken, hrow]
        rw [hrow] at hfound
        exact .refused (rows_quiet rows) _ hfound
      | some stored =>
        rw [hrow] at hfound
        simp only [refreshFound] at hfound
        cases hrevoked : stored.revoked with
        | true =>
          simp only [refreshAlone, refresh, hdecode, htype, Session.getByToken, hrow, hrevoked]
          rw [if_pos hrevoked] at hfound
          exact .of_goes (.step _ hfound) .reused
        | false =>
          rw [if_neg (by simp [hrevoked])] at hfound
          by_cases hexpired : stored.expiresAt.inUtc < env.readAt
          · simp only [refreshAlone, refresh, hdecode, htype, Session.getByToken, hrow, hrevoked,
              hexpired]
            rw [if_pos hexpired] at hfound
            exact .refused (rows_quiet rows) _ hfound
          · rw [if_neg hexpired] at hfound
            exact .of_goes (.step _ hfound)
              (.rotated hrow hrevoked hexpired ⟨payload, hdecode, htype⟩)
    · have hstart : (Work.refresh token).start env.decodeToken env.calledAt =
          .done (.refused (.unauthorized "Invalid token type")) := by
        simp [Work.start, hdecode, htype]
      simp only [hstart, refreshAlone, refresh, hdecode, ne_eq, htype, not_false_eq_true, if_true]
      exact ⟨quiet rows, _, .refl, rfl, rows_quiet rows⟩

end Auth
