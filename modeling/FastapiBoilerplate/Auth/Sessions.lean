import FastapiBoilerplate.Auth.Service

/-!
# What holds of the sessions whatever the schedule

`Move` says what one step can do. `Kept` is what no interleaving breaks, and what both
questions about families — is a rotation single-use, is an ended family over — start from:

* the table only ever gains rows, and a row only ever changes by being marked revoked, so a
  `get_by_token` that found a row keeps finding that row (`Kin`);
* the rows a session has inserted are the ones its phase says, and a rotation's successor is
  in the family of the row it was rotated from;
* a family identifier minted by a login is in no row until that login commits.

None of this says that a rotation's row is still live when its `UPDATE` lands: nothing in the
code makes it so.
-/

namespace Auth

open Lib Lib.ReadCommitted List Option Db

/-! ## One step -/

/-- The call has ended with nothing committed. -/
def Outcome.barren : Outcome → Bool
  | .refused _ => true
  | .aborted => true
  | _ => false

/-- What one step can do. -/
inductive Move (s : Sys) : Action → Sys → Prop
  | call {work : Work} {now : Instant} {p : Phase}
      (hp : p = .called ∨ ∃ e, p = .done (.refused e)) :
      Move s (.call work now) { s with calls := s.calls ++ [⟨work, p⟩] }
  | leave {a : Action} {c : ℕ} {work : Work} {p : Phase} {o : Outcome}
      (hc : s.calls[c]? = some ⟨work, p⟩) (hp : ∀ o, p ≠ .done o) (ho : o.barren = true) :
      Move s a (s.fail c work o)
  | found {c : ℕ} {now : Instant} {token : Token} {stored : RefreshToken}
      (hc : s.calls[c]? = some ⟨.refresh token, .called⟩)
      (hf : s.getByToken token = some stored) (hlive : stored.revoked = false) :
      Move s (.getByToken c now) (s.goto s.db c (.refresh token) (.rotating stored))
  | toEnd {c : ℕ} {now : Instant} {work : Work} {token : Token} {stored : RefreshToken}
      {reason : RevocationReason} (hc : s.calls[c]? = some ⟨work, .called⟩)
      (hf : s.getByToken token = some stored) :
      Move s (.getByToken c now) (s.goto s.db c work (.ending stored.familyId reason))
  | unknown {c : ℕ} {now : Instant} {work : Work} (hc : s.calls[c]? = some ⟨work, .called⟩) :
      Move s (.getByToken c now) (s.goto s.db c work .leaving)
  | again {c i : ℕ} {token : Token} {stored row : RefreshToken}
      (hc : s.calls[c]? = some ⟨.refresh token, .rotating stored⟩)
      (hf : s.db.find (hasToken token) = some (i, row)) :
      Move s (.selectAgain c) (s.goto s.db c (.refresh token) (.revoking i stored))
  | vanished {c : ℕ} {token : Token} {stored : RefreshToken}
      (hc : s.calls[c]? = some ⟨.refresh token, .rotating stored⟩)
      (hf : s.db.find (hasToken token) = none) :
      Move s (.selectAgain c) (s.goto s.db c (.refresh token) (.reading stored))
  | revoke {c i : ℕ} {now : Instant} {work : Work} {stored : RefreshToken}
      {db' : Db RefreshToken} (hc : s.calls[c]? = some ⟨work, .revoking i stored⟩)
      (hu : s.db.update c i (RefreshToken.markRevoked .rotated now) = some db') :
      Move s (.revoke c now) (s.goto db' c work (.reading stored))
  | account {c : ℕ} {isActive : Option Bool} {work : Work} {stored : RefreshToken}
      (hc : s.calls[c]? = some ⟨work, .reading stored⟩) :
      Move s (.getUser c isActive) (s.goto s.db c work (.issuing stored))
  | create {c : ℕ} {token : Token} {expiresAt : Datetime} {uuid4 : Uuid} {work : Work}
      {stored row : RefreshToken} {db' : Db RefreshToken}
      (hc : s.calls[c]? = some ⟨work, .issuing stored⟩)
      (hrow : row.familyId = stored.familyId)
      (hi : s.db.insert c (hasToken row.token) row = some db') :
      Move s (.create c token expiresAt uuid4) (s.goto db' c work (.committing stored row))
  | login {c : ℕ} {token : Token} {expiresAt : Datetime} {uuid4 user : Uuid}
      {row : RefreshToken} {db' : Db RefreshToken}
      (hc : s.calls[c]? = some ⟨.login user, .called⟩) (hrow : row.familyId = uuid4)
      (hfresh : s.freshFamily uuid4 = true)
      (hi : s.db.insert c (hasToken row.token) row = some db') :
      Move s (.create c token expiresAt uuid4) (s.goto db' c (.login user) (.opening row))
  | select {c : ℕ} {work : Work} {family : Uuid} {reason : RevocationReason}
      (hc : s.calls[c]? = some ⟨work, .ending family reason⟩) :
      Move s (.selectFamily c)
        (s.goto s.db c work (.marking family reason (s.db.select (isLiveIn family))))
  | mark {c i : ℕ} {now : Instant} {work : Work} {family : Uuid} {reason : RevocationReason}
      {ids : List ℕ} {db' : Db RefreshToken}
      (hc : s.calls[c]? = some ⟨work, .marking family reason ids⟩)
      (hu : s.db.update c i (RefreshToken.markRevoked reason now) = some db') :
      Move s (.markMember c i now) (s.goto db' c work (.marking family reason (ids.erase i)))
  | rotated {c : ℕ} {work : Work} {stored row : RefreshToken}
      (hc : s.calls[c]? = some ⟨work, .committing stored row⟩) :
      Move s (.commit c) (s.goto (s.db.commit c) c work (.done (.issued row)))
  | opened {c : ℕ} {work : Work} {row : RefreshToken}
      (hc : s.calls[c]? = some ⟨work, .opening row⟩) :
      Move s (.commit c) (s.goto (s.db.commit c) c work (.done (.issued row)))
  | ended {c : ℕ} {work : Work} {family : Uuid} {reason : RevocationReason}
      (hc : s.calls[c]? = some ⟨work, .marking family reason []⟩) :
      Move s (.commit c) (s.goto (s.db.commit c) c work (.done (.ended family reason)))
  | left {c : ℕ} {work : Work} (hc : s.calls[c]? = some ⟨work, .leaving⟩) :
      Move s (.commit c) (s.goto (s.db.commit c) c work (.done .unknown))

variable {s s' : Sys} {a : Action} {decodeToken : Token → Instant → Option Payload}

/-- Every step is a new call or one unfinished call going on. -/
theorem Move.goes (h : Move s a s') :
    (∃ call, s' = { s with calls := s.calls ++ [call] }) ∨
      ∃ c work p db' p', s.calls[c]? = some ⟨work, p⟩ ∧ (∀ o, p ≠ .done o) ∧
        s' = s.goto db' c work p' := by
  cases h with
  | call => exact .inl ⟨_, rfl⟩
  | leave hc hp => exact .inr ⟨_, _, _, _, _, hc, hp, rfl⟩
  | found hc | toEnd hc | unknown hc | again hc | vanished hc | revoke hc | account hc
  | create hc | login hc | select hc | mark hc | rotated hc | opened hc | ended hc | left hc =>
    exact .inr ⟨_, _, _, _, _, hc, nofun, rfl⟩

variable {work : Work} {o : Outcome} {token : Token} {row stored v w : RefreshToken} {c i d : ℕ}
  {now : Instant} {db db' : Db RefreshToken} {p p' : Phase}

theorem Move.done (h : Move s a s') (hd : s.calls[d]? = some ⟨work, .done o⟩) :
    s'.calls[d]? = some ⟨work, .done o⟩ := by
  rcases h.goes with ⟨call, rfl⟩ | ⟨c, work', p, db', p', hc, hp, rfl⟩
  · exact getElem?_append_of hd
  refine getElem?_set_of_ne hc hd ?_
  rintro ⟨⟩
  exact hp o rfl

/-- A refresh that has issued a token had done so before the step, or was about to. -/
theorem Move.issued (h : Move s a s')
    (hd : s'.calls[d]? = some ⟨.refresh token, .done (.issued row)⟩) :
    s.calls[d]? = some ⟨.refresh token, .done (.issued row)⟩ ∨
      (∃ stored, s.calls[d]? = some ⟨.refresh token, .committing stored row⟩) ∨
      s.calls[d]? = some ⟨.refresh token, .opening row⟩ := by
  cases h with
  | call hp =>
    rcases getElem?_append_cases hd with ⟨-, e⟩ | ⟨-, hold⟩
    · rcases hp with rfl | ⟨e', rfl⟩ <;> cases e
    · exact .inl hold
  | leave _ _ ho =>
    rcases getElem?_set_cases hd with ⟨-, e⟩ | ⟨-, hold⟩
    · cases e
      cases ho
    · exact .inl hold
  | found | toEnd | unknown | again | vanished | revoke | account | create | login | select
  | mark | ended | left =>
    rcases getElem?_set_cases hd with ⟨-, e⟩ | ⟨-, hold⟩
    · cases e
    · exact .inl hold
  | rotated hc =>
    rcases getElem?_set_cases hd with ⟨rfl, e⟩ | ⟨-, hold⟩
    · cases e
      exact .inr (.inl ⟨_, hc⟩)
    · exact .inl hold
  | opened hc =>
    rcases getElem?_set_cases hd with ⟨rfl, e⟩ | ⟨-, hold⟩
    · cases e
      exact .inr (.inr hc)
    · exact .inl hold

theorem start_cases (work : Work) (now : Instant) :
    work.start decodeToken now = .called ∨
      ∃ e, work.start decodeToken now = .done (.refused e) := by
  cases work with
  | login | logout => exact .inl rfl
  | refresh =>
    simp only [Work.start]
    split
    · exact .inr ⟨_, rfl⟩
    split
    · exact .inr ⟨_, rfl⟩
    · exact .inl rfl

theorem move_refreshFound (hc : s.calls[c]? = some ⟨.refresh token, .called⟩) :
    Move s (.getByToken c now)
      (s.proceed c (.refresh token) (refreshFound (s.getByToken token) now)) := by
  cases hf : s.getByToken token with
  | none => exact .leave hc nofun rfl
  | some =>
    simp only [refreshFound]
    split
    · exact .toEnd hc hf
    · next hlive =>
      split
      · exact .leave hc nofun rfl
      · exact .found hc hf (by simpa using hlive)

theorem move_logoutFound (hc : s.calls[c]? = some ⟨.logout token, .called⟩) :
    Move s (.getByToken c now)
      (s.goto s.db c (.logout token) (logoutFound (s.getByToken token))) := by
  cases hf : s.getByToken token with
  | none => exact .unknown hc
  | some => exact .toEnd hc hf

theorem move_userFound {isActive : Option Bool} (hc : s.calls[c]? = some ⟨work, .reading stored⟩) :
    Move s (.getUser c isActive) (s.proceed c work (userFound stored isActive)) := by
  cases isActive with
  | none => exact .leave hc nofun rfl
  | some active =>
    cases active with
    | false => exact .leave hc nofun rfl
    | true => exact .account hc

theorem step_move (h : s.step decodeToken a = some s') : Move s a s' := by
  cases a with simp only [Sys.step] at h
  | call work now =>
    cases h
    exact .call (start_cases work now)
  | getByToken =>
    split at h <;> cases h
    · exact move_refreshFound ‹_›
    · exact move_logoutFound ‹_›
  | selectAgain =>
    split at h <;> [split at h; skip] <;> cases h
    · exact .again ‹_› ‹_›
    · exact .vanished ‹_› ‹_›
  | revoke =>
    split at h <;> [skip; cases h]
    obtain ⟨db', hu, rfl⟩ := map_eq_some_iff.mp h
    exact .revoke ‹_› hu
  | getUser =>
    split at h <;> cases h
    exact move_userFound ‹_›
  | create =>
    split at h <;> [skip; split at h <;> [skip; cases h]; cases h]
    · obtain ⟨db', hi, rfl⟩ := map_eq_some_iff.mp h
      exact .create ‹_› rfl hi
    · obtain ⟨db', hi, rfl⟩ := map_eq_some_iff.mp h
      exact .login ‹_› rfl ‹_› hi
  | selectFamily =>
    split at h <;> cases h
    exact .select ‹_›
  | markMember =>
    split at h <;> [split at h <;> [skip; cases h]; cases h]
    obtain ⟨db', hu, rfl⟩ := map_eq_some_iff.mp h
    exact .mark ‹_› hu
  | commit =>
    split at h <;> cases h
    · exact .rotated ‹_›
    · exact .opened ‹_›
    · exact .ended ‹_›
    · exact .left ‹_›
  | abort =>
    split at h <;> cases h
    rename_i hp hc
    refine .leave hc ?_ rfl
    rintro o rfl
    exact hp _ rfl

/-! ## How rows change -/

/-- `w` is `v`, marked revoked. -/
structure Marks (v w : RefreshToken) : Prop where
  revoked : w.revoked = true
  token : w.token = v.token
  familyId : w.familyId = v.familyId

/-- `w` is `v` at some later time. -/
structure Kin (v w : RefreshToken) : Prop where
  token : w.token = v.token
  familyId : w.familyId = v.familyId
  revoked : v.revoked = true → w.revoked = true

theorem Kin.refl (v : RefreshToken) : Kin v v := ⟨rfl, rfl, id⟩

theorem Kin.live (h : Kin v w) (hw : w.revoked = false) : v.revoked = false := by
  apply Bool.eq_false_iff.mpr
  intro hv
  rw [h.revoked hv] at hw
  cases hw

theorem Marks.kin (h : Marks v w) : Kin v w :=
  ⟨h.token, h.familyId, fun _ => h.revoked⟩

theorem Kin.hasToken (h : Kin v w) (token : Token) : hasToken token w = hasToken token v := by
  rw [Auth.hasToken, h.token, Auth.hasToken]

theorem marks_markRevoked (reason : RevocationReason) (now : Instant) (h : v = w ∨ Marks v w) :
    Marks v (w.markRevoked reason now) := by
  rcases h with rfl | h
  · exact ⟨rfl, rfl, rfl⟩
  · exact ⟨rfl, h.token, h.familyId⟩

/-! ## A session and the table -/

/-- The rows a call in this phase has inserted and not committed. -/
def Phase.inserted : Phase → List RefreshToken
  | .committing _ row => [row]
  | .opening row => [row]
  | _ => []

/-- The row a call in this phase is rotating, as it read it. -/
def Phase.rotation : Phase → Option RefreshToken
  | .rotating stored => some stored
  | .revoking _ stored => some stored
  | .reading stored => some stored
  | .issuing stored => some stored
  | .committing stored _ => some stored
  | _ => none

/-- The row the call's `UPDATE` is about to mark. -/
def Phase.target : Phase → Option ℕ
  | .revoking i _ => some i
  | _ => none

/-- The first row of a new family, inserted and not committed. -/
def Phase.login : Phase → Option RefreshToken
  | .opening row => some row
  | _ => none

/-- The row a call has issued. -/
def Phase.result : Phase → Option RefreshToken
  | .done (.issued row) => some row
  | _ => none

/-- The family a call in this phase is ending or has ended. -/
def Phase.family : Phase → Option Uuid
  | .ending family _ => some family
  | .marking family _ _ => some family
  | .done (.ended family _) => some family
  | _ => none

/-- Where `get_by_token` finds a token. -/
def At (rows : List RefreshToken) (token : Token) (i : ℕ) (row : RefreshToken) : Prop :=
  rows.findIdx? (hasToken token) = some i ∧ rows[i]? = some row

theorem At.along {rows rows' : List RefreshToken} (h : At rows token i row)
    (hr : Db.Along Kin rows rows') : ∃ row', At rows' token i row' ∧ Kin row row' := by
  obtain ⟨row', hrow', hkin⟩ := hr i row h.2
  exact ⟨row', ⟨hr.findIdx? (fun hk => hk.hasToken token) h.1, hrow'⟩, hkin⟩

theorem at_of_getByToken (h : s.getByToken token = some stored) :
    ∃ i, At s.db.rows token i stored := by
  obtain ⟨⟨i, row⟩, hf, rfl⟩ := map_eq_some_iff.mp h
  exact ⟨i, find_eq_some.mp hf⟩

/-- What the call `c` believes of the table is so. -/
structure Fits (db : Db RefreshToken) (c : ℕ) (call : Call) : Prop where
  inserts : db.insertsOf c = call.phase.inserted
  origin : ∀ stored, call.phase.rotation = some stored → ∃ token i row,
    call.work = .refresh token ∧ At db.rows token i row ∧ row.familyId = stored.familyId
  target : ∀ i, call.phase.target = some i → ∀ token, call.work = .refresh token →
    db.rows.findIdx? (hasToken token) = some i
  heir : ∀ stored, call.phase.rotation = some stored → ∀ row ∈ call.phase.inserted,
    row.familyId = stored.familyId
  family : ∀ f, call.phase.family = some f → ∃ row ∈ db.rows, row.familyId = f
  opener : call.phase.login ≠ none → ∃ user, call.work = .login user
  issued : ∀ token row, call.work = .refresh token → call.phase.result = some row →
    ∃ i r, At db.rows token i r ∧ row.familyId = r.familyId

/-- Other sessions can change neither a session's inserts nor what identifies a row. -/
theorem Fits.frame {call : Call} (h : Fits db c call) (hrows : Db.Along Kin db.rows db'.rows)
    (hins : db'.insertsOf c = db.insertsOf c) : Fits db' c call where
  inserts := hins.trans h.inserts
  origin := by
    intro stored hs
    obtain ⟨token, i, row, hwork, hat, hfam⟩ := h.origin stored hs
    obtain ⟨row', hat', hkin⟩ := hat.along hrows
    exact ⟨token, i, row', hwork, hat', hkin.familyId.trans hfam⟩
  target := by
    intro i hi token hwork
    exact hrows.findIdx? (fun hk => hk.hasToken token) (h.target i hi token hwork)
  __ := h
  family := by
    intro f hf
    obtain ⟨row, hrow, hfam⟩ := h.family f hf
    obtain ⟨i, hi⟩ := mem_iff_getElem?.mp hrow
    obtain ⟨row', hi', hkin⟩ := hrows i row hi
    exact ⟨row', mem_of_getElem? hi', hkin.familyId.trans hfam⟩
  issued := by
    intro token row hwork hres
    obtain ⟨i, r, hat, hfam⟩ := h.issued token row hwork hres
    obtain ⟨r', hat', hkin⟩ := hat.along hrows
    exact ⟨i, r', hat', hfam.trans hkin.familyId.symm⟩

theorem Fits.plain (hins : db.insertsOf c = p.inserted) (hrot : p.rotation = none)
    (hfam : ∀ f, p.family = some f → ∃ row ∈ db.rows, row.familyId = f)
    (hopen : p.login ≠ none → ∃ user, work = .login user)
    (hissued : ∀ token row, work = .refresh token → p.result = some row →
      ∃ i r, At db.rows token i r ∧ row.familyId = r.familyId) : Fits db c ⟨work, p⟩ where
  inserts := hins
  origin := by
    intro stored hs
    exact absurd (hrot.symm.trans hs) (by simp)
  target := by
    intro i hi
    cases p with
    | revoking => cases hrot
    | _ => cases hi
  heir := by
    intro stored hs
    exact absurd (hrot.symm.trans hs) (by simp)
  family := hfam
  opener := hopen
  issued := hissued

/-- What no interleaving breaks. -/
structure Kept (s : Sys) : Prop where
  pending : Db.Within Marks s.db
  calls : ∀ (c : ℕ) (call : Call), s.calls[c]? = some call → Fits s.db c call
  idle : ∀ c : ℕ, s.calls.length ≤ c → s.db.insertsOf c = []
  fresh : ∀ (c : ℕ) (work : Work) (row : RefreshToken),
    s.calls[c]? = some ⟨work, .opening row⟩ → ∀ r ∈ s.db.rows, r.familyId ≠ row.familyId
  apart : ∀ (c c' : ℕ) (work work' : Work) (row row' : RefreshToken),
    s.calls[c]? = some ⟨work, .opening row⟩ → s.calls[c']? = some ⟨work', .opening row'⟩ →
    c' ≠ c → row'.familyId ≠ row.familyId

theorem kept_init : Kept {} where
  pending _ _ _ _ := nofun
  calls _ _ := nofun
  idle _ _ := rfl
  fresh := nofun
  apart _ _ _ _ _ _ := nofun

/-- Where rows come from: a row's family was in the table before the step, or the row was an
    insert of the session that steps. -/
def Grown (db db' : Db RefreshToken) (c : ℕ) : Prop :=
  ∀ r ∈ db'.rows, (∃ r₀ ∈ db.rows, r₀.familyId = r.familyId) ∨ r ∈ db.insertsOf c

theorem Grown.of_rows_eq (h : db'.rows = db.rows) : Grown db db' c := by
  intro r hr
  exact .inl ⟨r, h ▸ hr, rfl⟩

theorem commit_row_cases (h : Kept s) {r : RefreshToken} (hr : (s.db.commit c).rows[i]? = some r) :
    (∃ r₀, s.db.rows[i]? = some r₀ ∧ Kin r₀ r) ∨
      (s.db.slots.length ≤ i ∧ (s.db.insertsOf c)[i - s.db.slots.length]? = some r) := by
  obtain ⟨slot, hslot, rfl⟩ := slot_of_row hr
  rcases slots_commit_cases hslot with ⟨slot₀, hslot₀, rfl⟩ | ⟨hle, -, hnew⟩
  · have hrow₀ := rows_of_slot hslot₀
    obtain ⟨r', hr', hkin⟩ := h.pending.along_commit (t := c) Kin.refl Marks.kin i _ hrow₀
    rw [rows_of_slot (slots_commit hslot₀)] at hr'
    cases hr'
    exact .inl ⟨_, hrow₀, hkin⟩
  · exact .inr ⟨hle, hnew⟩

theorem grown_commit (h : Kept s) (c : ℕ) : Grown s.db (s.db.commit c) c := by
  intro r hr
  obtain ⟨i, hi⟩ := mem_iff_getElem?.mp hr
  rcases commit_row_cases h hi with ⟨r₀, hr₀, hkin⟩ | ⟨-, hnew⟩
  · exact .inl ⟨r₀, mem_of_getElem? hr₀, hkin.familyId.symm⟩
  · exact .inr (mem_of_getElem? hnew)

section

variable (h : Kept s) (hc : s.calls[c]? = some ⟨work, p⟩)

include h hc

/-- One session goes on. The table may have changed as a step of this session changes it,
    and the new phase must be right about it; everything else is frame. -/
theorem Kept.goto (hw : Db.Within Marks db')
    (hrows : Db.Along Kin s.db.rows db'.rows)
    (hins : ∀ c', c' ≠ c → db'.insertsOf c' = s.db.insertsOf c')
    (hnew : Grown s.db db' c) (hfits : Fits db' c ⟨work, p'⟩)
    (hopen : ∀ row, p' = .opening row →
      (∀ r ∈ db'.rows, r.familyId ≠ row.familyId) ∧
      ∀ c' work' row', s.calls[c']? = some ⟨work', .opening row'⟩ → c' ≠ c →
        row'.familyId ≠ row.familyId) :
    Kept (s.goto db' c work p') where
  pending := hw
  calls := by
    intro d call hd
    rcases getElem?_set_cases hd with ⟨rfl, rfl⟩ | ⟨hne, hd⟩
    · exact hfits
    · exact (h.calls d call hd).frame hrows (hins d hne)
  idle := by
    intro d hd
    have hlt := lt_of_getElem? hc
    rw [Sys.goto, length_set] at hd
    exact (hins d (Nat.ne_of_gt (hlt.trans_le hd))).trans (h.idle d hd)
  fresh := by
    intro d work' row hd r hr
    rcases getElem?_set_cases hd with ⟨-, e⟩ | ⟨hne, hd⟩
    · cases e
      exact (hopen row rfl).1 r hr
    rcases hnew r hr with ⟨r₀, hr₀, e⟩ | hr
    · rw [← e]
      exact h.fresh d work' row hd r₀ hr₀
    -- what `c` inserts is a login's row, or in the family of a row that is there
    have hcall := h.calls c _ hc
    rw [hcall.inserts] at hr
    cases p with
    | committing stored =>
      obtain ⟨token, i, r₀, -, hat, e⟩ := hcall.origin stored rfl
      rw [hcall.heir stored rfl r hr, ← e]
      exact h.fresh d work' row hd r₀ (mem_of_getElem? hat.2)
    | opening =>
      obtain rfl := mem_singleton.mp hr
      exact h.apart d c work' work row r hd hc (Ne.symm hne)
    | _ => cases hr
  apart := by
    intro d d' work₁ work₂ row row' hd hd' hne
    rcases getElem?_set_cases hd with ⟨rfl, e⟩ | ⟨hdc, hold⟩
    · cases e
      rcases getElem?_set_cases hd' with ⟨rfl, -⟩ | ⟨-, hold'⟩
      · exact absurd rfl hne
      · exact (hopen row rfl).2 d' work₂ row' hold' hne
    · rcases getElem?_set_cases hd' with ⟨rfl, e⟩ | ⟨-, hold'⟩
      · cases e
        exact Ne.symm ((hopen row' rfl).2 d work₁ row hold hdc)
      · exact h.apart d d' work₁ work₂ row row' hold hold' hne

theorem Kept.quiet (hfits : Fits s.db c ⟨work, p'⟩) (hopen : p'.login = none) :
    Kept (s.goto s.db c work p') := by
  refine h.goto hc h.pending (.of_eq Kin.refl rfl) (fun _ _ => rfl) (.of_rows_eq rfl) hfits ?_
  rintro row rfl
  cases hopen

theorem Kept.mark {reason : RevocationReason}
    (hu : s.db.update c i (RefreshToken.markRevoked reason now) = some db')
    (hfits : Fits db' c ⟨work, p'⟩) (hopen : p'.login = none) : Kept (s.goto db' c work p') := by
  have hrows := rows_update hu
  refine h.goto hc (h.pending.update (marks_markRevoked reason now) hu) (.of_eq Kin.refl hrows)
    (fun c' _ => insertsOf_update hu c') (.of_rows_eq hrows) hfits ?_
  rintro row rfl
  cases hopen

theorem Kept.commit (hfits : Fits (s.db.commit c) c ⟨work, .done o⟩) :
    Kept (s.goto (s.db.commit c) c work (.done o)) := by
  refine h.goto hc h.pending.commit (h.pending.along_commit Kin.refl Marks.kin) ?_
    (grown_commit h c) hfits nofun
  intro c' hne
  rw [insertsOf_settled rfl, if_neg hne]

theorem Kept.fail (ho : o.barren = true) : Kept (s.fail c work o) := by
  have hfits : Fits (s.db.rollback c) c ⟨work, .done o⟩ := by
    have hins : (s.db.rollback c).insertsOf c = [] := by rw [insertsOf_settled rfl, if_pos rfl]
    cases o with
    | ended | issued => cases ho
    | _ => exact .plain hins rfl nofun (absurd rfl) nofun
  refine h.goto hc h.pending.rollback (.of_eq Kin.refl rows_rollback) ?_
    (.of_rows_eq rows_rollback) hfits nofun
  intro c' hne
  rw [insertsOf_settled rfl, if_neg hne]

theorem Kept.insert (hi : s.db.insert c (hasToken row.token) row = some db')
    (hfits : Fits db' c ⟨work, p'⟩)
    (hopen : ∀ row, p' = .opening row →
      (∀ r ∈ s.db.rows, r.familyId ≠ row.familyId) ∧
      ∀ c' work' row', s.calls[c']? = some ⟨work', .opening row'⟩ → c' ≠ c →
        row'.familyId ≠ row.familyId) : Kept (s.goto db' c work p') := by
  have hrows := rows_insert hi
  have hpending : Db.Within Marks db' := by
    rw [insert_eq_some hi]
    exact h.pending
  refine h.goto hc hpending (.of_eq Kin.refl hrows) ?_ (.of_rows_eq hrows) hfits ?_
  · intro c' hne
    rw [insertsOf_insert hi, if_neg hne]
  · rw [hrows]
    exact hopen

end

section

variable (h : Fits db c ⟨work, p⟩) (hp : p.rotation = some stored) (hrows : db'.rows = db.rows)

include h hp hrows

/-- A rotation goes on: what it read of its row stays as true as it was. -/
theorem Fits.rotation
    (hins : db'.insertsOf c = p'.inserted)
    (hp' : p'.rotation = some stored)
    (htarget : ∀ i, p'.target = some i → ∀ token, work = .refresh token →
      db.rows.findIdx? (hasToken token) = some i)
    (hheir : ∀ row ∈ p'.inserted, row.familyId = stored.familyId) :
    Fits db' c ⟨work, p'⟩ := by
  have hplain : p'.family = none ∧ p'.login = none ∧ p'.result = none := by
    cases p' with
    | ending | marking | opening | done => cases hp'
    | _ => exact ⟨rfl, rfl, rfl⟩
  constructor
  case inserts => exact hins
  case origin =>
    intro stored' hs
    obtain rfl : stored = stored' := some.inj (hp'.symm.trans hs)
    rw [hrows]
    exact h.origin stored hp
  case target =>
    rw [hrows]
    exact htarget
  case heir =>
    intro stored' hs
    obtain rfl : stored = stored' := some.inj (hp'.symm.trans hs)
    exact hheir
  all_goals simp [hplain]

theorem Fits.onward (hins : db'.insertsOf c = []) (hp' : p'.rotation = some stored)
    (htarget : p'.target = none) (hnone : p'.inserted = []) : Fits db' c ⟨work, p'⟩ := by
  refine h.rotation hp hrows (hins.trans hnone.symm) hp' ?_ ?_
  · intro i hi
    exact absurd (htarget.symm.trans hi) (by simp)
  · intro row hrow
    rw [hnone] at hrow
    cases hrow

end

theorem Fits.reads (hins : db.insertsOf c = []) (hat : At db.rows token i stored) :
    Fits db c ⟨.refresh token, .rotating stored⟩ where
  inserts := hins
  origin := by
    rintro stored' ⟨⟩
    exact ⟨token, i, stored, rfl, hat, rfl⟩
  target := nofun
  heir _ _ := nofun
  family := nofun
  opener := absurd rfl
  issued := nofun

/-- Ending goes on: the family is one the table knows. -/
theorem Fits.ending {f : Uuid} (hins : db.insertsOf c = []) (hf : ∃ row ∈ db.rows, row.familyId = f)
    (hp' : p'.family = some f) : Fits db c ⟨work, p'⟩ := by
  have hfam : ∀ g, p'.family = some g → ∃ row ∈ db.rows, row.familyId = g := by
    intro g hg
    obtain rfl : f = g := some.inj (hp'.symm.trans hg)
    exact hf
  cases p' with
  | ending | marking => exact .plain hins rfl hfam (absurd rfl) nofun
  | done o =>
    refine .plain hins rfl hfam (absurd rfl) ?_
    cases o with
    | issued => cases hp'
    | _ => exact nofun
  | _ => cases hp'

theorem Kept.freshFamily (h : Kept s) {uuid4 : Uuid} (hf : s.freshFamily uuid4 = true) :
    (∀ r ∈ s.db.rows, r.familyId ≠ uuid4) ∧
      ∀ (c : ℕ) (work : Work) (row : RefreshToken),
        s.calls[c]? = some ⟨work, .opening row⟩ → row.familyId ≠ uuid4 := by
  simp only [Sys.freshFamily, Bool.and_eq_true, List.all_eq_true, bne_iff_ne, ne_eq] at hf
  refine ⟨hf.1, ?_⟩
  intro c work row hc
  have hmem : row ∈ s.db.insertsOf c := by
    rw [(h.calls c _ hc).inserts]
    exact mem_singleton.mpr rfl
  obtain ⟨⟨c', row'⟩, hw, rfl⟩ := mem_map.mp hmem
  exact hf.2 _ (mem_of_mem_filter hw)

theorem insertsOf_commit (c : ℕ) : (s.db.commit c).insertsOf c = [] := by
  rw [insertsOf_settled rfl, if_pos rfl]

theorem Kept.move (h : Kept s) (hm : Move s a s') : Kept s' := by
  cases hm with
  | @call work _ p hp =>
    have hplain : Fits s.db s.calls.length ⟨work, p⟩ := by
      have hidle := h.idle _ (Nat.le_refl s.calls.length)
      rcases hp with rfl | ⟨e, rfl⟩ <;> exact .plain hidle rfl nofun (absurd rfl) nofun
    -- the new call is not a login that has inserted its row
    have hopen : ∀ {d : ℕ} {work' : Work} {row : RefreshToken},
        (s.calls ++ [⟨work, p⟩])[d]? = some ⟨work', .opening row⟩ →
        s.calls[d]? = some ⟨work', .opening row⟩ := by
      intro d work' row hd
      rcases getElem?_append_cases hd with ⟨-, e⟩ | ⟨-, hd⟩
      · rcases hp with rfl | ⟨e', rfl⟩ <;> cases e
      · exact hd
    refine ⟨h.pending, ?_, ?_, ?_, ?_⟩
    · intro d call hd
      rcases getElem?_append_cases hd with ⟨rfl, rfl⟩ | ⟨-, hd⟩
      · exact hplain
      · exact h.calls d call hd
    · intro d hd
      rw [length_append] at hd
      exact h.idle d (Nat.le_of_add_right_le hd)
    · intro d work' row hd
      exact h.fresh d work' row (hopen hd)
    · intro d d' work₁ work₂ row row' hd hd'
      exact h.apart d d' work₁ work₂ row row' (hopen hd) (hopen hd')
  | leave hc _ ho => exact h.fail hc ho
  | found hc hf =>
    obtain ⟨i, hat⟩ := at_of_getByToken hf
    exact h.quiet hc (.reads (h.calls _ _ hc).inserts hat) rfl
  | toEnd hc hf =>
    obtain ⟨i, hat⟩ := at_of_getByToken hf
    refine h.quiet hc (.ending (h.calls _ _ hc).inserts ?_ rfl) rfl
    exact ⟨_, mem_of_getElem? hat.2, rfl⟩
  | unknown hc =>
    have hins := (h.calls _ _ hc).inserts
    exact h.quiet hc (.plain hins rfl nofun (absurd rfl) nofun) rfl
  | again hc hf =>
    have hcall := h.calls _ _ hc
    refine h.quiet hc (hcall.rotation rfl rfl hcall.inserts rfl ?_ nofun) rfl
    rintro i' ⟨⟩ token' ⟨⟩
    exact (find_eq_some.mp hf).1
  | vanished hc | account hc =>
    have hcall := h.calls _ _ hc
    exact h.quiet hc (hcall.onward rfl rfl hcall.inserts rfl rfl rfl) rfl
  | revoke hc hu =>
    have hcall := h.calls _ _ hc
    have hins := (insertsOf_update hu _).trans hcall.inserts
    exact h.mark hc hu (hcall.onward rfl (rows_update hu) hins rfl rfl rfl) rfl
  | @create c _ _ _ _ _ row db' hc hrow hi =>
    have hcall := h.calls c _ hc
    have hins : db'.insertsOf c = [row] := by
      rw [insertsOf_insert hi, if_pos rfl, hcall.inserts]
      rfl
    refine h.insert hc hi (hcall.rotation rfl (rows_insert hi) hins rfl nofun ?_) nofun
    intro row' hrow'
    obtain rfl := mem_singleton.mp hrow'
    exact hrow
  | @login c _ _ _ user row db' hc hrow hfresh hi =>
    have hins : db'.insertsOf c = [row] := by
      rw [insertsOf_insert hi, if_pos rfl, (h.calls c _ hc).inserts]
      rfl
    obtain ⟨hrows, hopen⟩ := h.freshFamily hfresh
    have hfits : Fits db' c ⟨.login user, .opening row⟩ :=
      .plain hins rfl nofun (fun _ => ⟨user, rfl⟩) nofun
    refine h.insert hc hi hfits ?_
    rintro row' ⟨⟩
    rw [hrow]
    exact ⟨hrows, fun c' work' row' hc' _ => hopen c' work' row' hc'⟩
  | select hc =>
    have hcall := h.calls _ _ hc
    exact h.quiet hc (.ending hcall.inserts (hcall.family _ rfl) rfl) rfl
  | mark hc hu =>
    have hcall := h.calls _ _ hc
    have hins := (insertsOf_update hu _).trans hcall.inserts
    refine h.mark hc hu (.ending hins ?_ rfl) rfl
    rw [rows_update hu]
    exact hcall.family _ rfl
  | @rotated c _ stored row hc =>
    have hcall := h.calls c _ hc
    refine h.commit hc (.plain (insertsOf_commit c) rfl nofun (absurd rfl) ?_)
    rintro token' row' hwork ⟨⟩
    -- the successor is in the family of the row the token was found in
    obtain ⟨token, i, r, hwork', hat, hfam⟩ := hcall.origin stored rfl
    obtain rfl : token = token' := Work.refresh.inj (hwork'.symm.trans hwork)
    obtain ⟨r', hat', hkin⟩ := hat.along (h.pending.along_commit (t := c) Kin.refl Marks.kin)
    refine ⟨i, r', hat', ?_⟩
    rw [hcall.heir stored rfl row (mem_singleton.mpr rfl), hkin.familyId, hfam]
  | opened hc =>
    obtain ⟨user, e⟩ := (h.calls _ _ hc).opener (by simp [Phase.login])
    refine h.commit hc (.plain (insertsOf_commit _) rfl nofun (absurd rfl) ?_)
    intro token row' hwork
    exact absurd (e.symm.trans hwork) (by simp)
  | @ended c _ _ _ hc =>
    obtain ⟨row, hrow, e⟩ := (h.calls c _ hc).family _ rfl
    obtain ⟨i, hi⟩ := mem_iff_getElem?.mp hrow
    obtain ⟨row', hi', hkin⟩ := h.pending.along_commit (t := c) Kin.refl Marks.kin i row hi
    refine h.commit hc (.ending (insertsOf_commit c) ?_ rfl)
    exact ⟨row', mem_of_getElem? hi', hkin.familyId.trans e⟩
  | left hc =>
    exact h.commit hc (.plain (insertsOf_commit _) rfl nofun (absurd rfl) nofun)

end Auth
