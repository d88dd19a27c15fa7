import FastapiBoilerplate.Auth.Sessions

/-!
# Is a rotation single-use?

`refresh` decides on what `get_by_token` read and writes later: `revoke`'s `UPDATE` is by
primary key and asks nothing of the row. Two calls that present one token can therefore both
read it live; the second waits for the first at the `UPDATE`, then marks a row that is revoked
by now, and issues a successor of its own.

What is missing is one test at one moment: that the row is still live when the `UPDATE` gets
its lock (`stillLive`; `UPDATE … WHERE NOT revoked` would make it). In every run in which it
would have succeeded, rotation is what the documentation says it is. The argument is
`Chained`: past its `UPDATE`, a rotation holds the lock on a row that is live in the table,
and nobody else can hold it or have spent it.
-/

namespace Auth

open Lib Lib.ReadCommitted List Option

/-- The row that a rotation's `UPDATE` is about to mark is live now, not only when the call
    read it. -/
def Sys.stillLive (s : Sys) : Action → Bool
  | .revoke c _ =>
    match s.calls[c]? with
    | some ⟨_, .revoking i _⟩ => s.db.rows[i]?.all (!·.revoked)
    | _ => true
  | _ => true

/-- The call has marked its row and not yet ended. -/
def Phase.holds : Phase → Bool
  | .reading _ => true
  | .issuing _ => true
  | .committing _ _ => true
  | _ => false

/-- The call holds the lock on its token's row, which is live in the table. -/
def Holds (db : Db RefreshToken) (c : ℕ) (token : Token) : Prop :=
  ∃ i v w, db.rows.findIdx? (hasToken token) = some i ∧
    db.slots[i]? = some ⟨v, some (c, w)⟩ ∧ v.revoked = false

/-- The token has been used up. -/
def Spent (rows : List RefreshToken) (token : Token) : Prop :=
  ∃ i row, At rows token i row ∧ row.revoked = true

/-- A family has at most one live row. -/
def SingleLink (rows : List RefreshToken) : Prop :=
  ∀ (i j : ℕ) (r r' : RefreshToken), rows[i]? = some r → rows[j]? = some r' →
    r.revoked = false → r'.revoked = false → r'.familyId = r.familyId → j = i

/-- No token is exchanged by two calls. -/
def SingleUse (calls : List Call) : Prop :=
  ∀ (c c' : ℕ) (token : Token) (row row' : RefreshToken),
    calls[c]? = some ⟨.refresh token, .done (.issued row)⟩ →
    calls[c']? = some ⟨.refresh token, .done (.issued row')⟩ → c' = c

structure Chained (s : Sys) : Prop where
  held : ∀ (c : ℕ) (token : Token) (p : Phase), s.calls[c]? = some ⟨.refresh token, p⟩ →
    p.holds = true → Holds s.db c token
  spent : ∀ (c : ℕ) (token : Token) (row : RefreshToken),
    s.calls[c]? = some ⟨.refresh token, .done (.issued row)⟩ → Spent s.db.rows token
  once : SingleUse s.calls
  single : SingleLink s.db.rows

variable {s s' : Sys} {a : Action} {decodeToken : Token → Instant → Option Payload}

/-! ## Frames -/

variable {token : Token} {db' : Db RefreshToken} {c : ℕ} {work : Work}

theorem Spent.along {rows rows' : List RefreshToken} (h : Spent rows token)
    (hr : Db.Along Kin rows rows') : Spent rows' token := by
  obtain ⟨i, row, hat, hrev⟩ := h
  obtain ⟨row', hat', hkin⟩ := hat.along hr
  exact ⟨i, row', hat', hkin.revoked hrev⟩

variable {db : Db RefreshToken} {p' : Phase} {row stored : RefreshToken}

theorem Holds.frame {c' : ℕ} (h : Holds db c' token) (hne : c' ≠ c)
    (hlocks : Db.KeepsLocks c db db') (hr : Db.Along Kin db.rows db'.rows) :
    Holds db' c' token := by
  obtain ⟨i, v, w, hi, hslot, hlive⟩ := h
  exact ⟨i, v, w, hr.findIdx? (fun hk => hk.hasToken token) hi,
    hlocks i v c' w hne hslot, hlive⟩

theorem Holds.not_spent (h : Holds db c token) : ¬ Spent db.rows token := by
  rintro ⟨j, row, ⟨hj, hrow⟩, hrev⟩
  obtain ⟨i, v, w, hi, hslot, hlive⟩ := h
  obtain rfl : i = j := some.inj (hi.symm.trans hj)
  rw [Db.rows_of_slot hslot] at hrow
  cases hrow
  rw [hlive] at hrev
  cases hrev

theorem Chained.goto (h : Chained s) (hlocks : Db.KeepsLocks c s.db db')
    (hrows : Db.Along Kin s.db.rows db'.rows)
    (hheld : ∀ token, work = .refresh token → p'.holds = true → Holds db' c token)
    (hissued : ∀ token row, work = .refresh token → p' = .done (.issued row) →
      Spent db'.rows token ∧ ¬ Spent s.db.rows token)
    (hsingle : SingleLink db'.rows) : Chained (s.goto db' c work p') where
  held := by
    intro d token p hd hp
    rcases getElem?_set_cases hd with ⟨rfl, e⟩ | ⟨hne, hd⟩
    · cases e
      exact hheld token rfl hp
    · exact (h.held d token p hd hp).frame hne hlocks hrows
  spent := by
    intro d token row hd
    rcases getElem?_set_cases hd with ⟨-, e⟩ | ⟨-, hd⟩
    · cases e
      exact (hissued token row rfl rfl).1
    · exact (h.spent d token row hd).along hrows
  once := by
    intro d d' token row row' hd hd'
    rcases getElem?_set_cases hd with ⟨rfl, e⟩ | ⟨-, hold⟩
    · rcases getElem?_set_cases hd' with ⟨rfl, -⟩ | ⟨-, hold'⟩
      · rfl
      · cases e
        exact absurd (h.spent d' token row' hold') (hissued token row rfl rfl).2
    · rcases getElem?_set_cases hd' with ⟨rfl, e⟩ | ⟨-, hold'⟩
      · cases e
        exact absurd (h.spent d token row hold) (hissued token row' rfl rfl).2
      · exact h.once d d' token row row' hold hold'
  single := hsingle

theorem Chained.uncommitted (h : Chained s) (hlocks : Db.KeepsLocks c s.db db')
    (hrows : db'.rows = s.db.rows)
    (hheld : ∀ token, work = .refresh token → p'.holds = true → Holds db' c token)
    (hissued : ∀ row, p' ≠ .done (.issued row)) : Chained (s.goto db' c work p') := by
  refine h.goto hlocks (.of_eq Kin.refl hrows) hheld ?_ ?_
  · intro token row _ e
    exact absurd e (hissued row)
  · rw [hrows]
    exact h.single

theorem chained_init : Chained {} where
  held _ _ _ := nofun
  spent _ _ _ := nofun
  once _ _ _ _ _ := nofun
  single _ _ _ _ := nofun

/-! ## Commits -/

section

variable (h : Chained s) (hk : Kept s)

include h hk

/-- A commit gives no family a second live row, if it inserts at most one row and leaves no
    live row of that row's family behind. -/
theorem Chained.commit {o : Outcome} (inserted : Option RefreshToken)
    (hins : s.db.insertsOf c = inserted.toList)
    (hissued : ∀ token row, work = .refresh token → o = .issued row →
      Spent (s.db.commit c).rows token ∧ ¬ Spent s.db.rows token)
    (hlast : ∀ row ∈ inserted, ∀ (i : ℕ) (r₀ r : RefreshToken), s.db.rows[i]? = some r₀ →
      (s.db.commit c).rows[i]? = some r → Kin r₀ r → r.revoked = false →
      r.familyId ≠ row.familyId) : Chained (s.goto (s.db.commit c) c work (.done o)) := by
  have hnew {i : ℕ} {row : RefreshToken} (hrow : (s.db.insertsOf c)[i]? = some row) :
      i = 0 ∧ row ∈ inserted := by
    cases inserted <;> simp_all [getElem?_singleton]
  refine h.goto .commit (hk.pending.along_commit Kin.refl Marks.kin) nofun
    (fun token row hwork e => hissued token row hwork (Phase.done.inj e)) ?_
  intro i j r r' hr hr' hlive hlive' hfam
  rcases commit_row_cases hk hr with ⟨r₀, hr₀, hkin⟩ | ⟨hi, hrow⟩
  · rcases commit_row_cases hk hr' with ⟨r₀', hr₀', hkin'⟩ | ⟨-, hrow'⟩
    · refine h.single i j r₀ r₀' hr₀ hr₀' (hkin.live hlive) (hkin'.live hlive') ?_
      rw [← hkin'.familyId, ← hkin.familyId, hfam]
    · exact absurd hfam.symm (hlast r' (hnew hrow').2 i r₀ r hr₀ hr hkin hlive)
  · rcases commit_row_cases hk hr' with ⟨r₀', hr₀', hkin'⟩ | ⟨hj, hrow'⟩
    · exact absurd hfam (hlast r (hnew hrow).2 j r₀' r' hr₀' hr' hkin' hlive')
    -- both are the one inserted row
    have hi' := (hnew hrow).1
    have hj' := (hnew hrow').1
    omega

theorem Chained.commit_nothing {p : Phase} {o : Outcome} (hc : s.calls[c]? = some ⟨work, p⟩)
    (hp : p.inserted = []) (ho : ∀ row, o ≠ .issued row) :
    Chained (s.goto (s.db.commit c) c work (.done o)) :=
  h.commit hk none ((hk.calls c _ hc).inserts.trans hp) (fun _ row _ e => absurd e (ho row)) nofun

/-- The commit of a login: nobody is in its family yet. -/
theorem Chained.commit_login (hc : s.calls[c]? = some ⟨work, .opening row⟩) :
    Chained (s.goto (s.db.commit c) c work (.done (.issued row))) := by
  obtain ⟨user, rfl⟩ : ∃ user, work = .login user := (hk.calls c _ hc).opener (by simp [Phase.login])
  refine h.commit hk (some row) (hk.calls c _ hc).inserts (by intros; contradiction) ?_
  rintro row' ⟨⟩ i r₀ r hr₀ - hkin -
  rw [hkin.familyId]
  exact hk.fresh c _ row hc r₀ (mem_of_getElem? hr₀)

/-- The commit of a rotation: the row it holds was its family's live one, and is not any
    more. -/
theorem Chained.commit_rotation (hc : s.calls[c]? = some ⟨.refresh token, .committing stored row⟩) :
    Chained (s.goto (s.db.commit c) c (.refresh token) (.done (.issued row))) := by
  have hcall := hk.calls c _ hc
  have hrows := hk.pending.along_commit (t := c) Kin.refl Marks.kin
  have hheld : Holds s.db c token := h.held c token _ hc rfl
  obtain ⟨i, v, w, hi, hslot, hlive⟩ := hheld
  -- what the lock is held for, and the table once it is committed
  have hmark : Marks v w := hk.pending i _ c w hslot rfl
  have hslot' : (s.db.commit c).slots[i]? = some ⟨w, none⟩ := by
    rw [Db.slots_commit hslot, Slot.settle_self]
  have hrow' := Db.rows_of_slot hslot'
  -- the successor is in the family of the row held
  have hfam : row.familyId = v.familyId := by
    obtain ⟨token', i', v', e, hat, hv'⟩ := hcall.origin stored rfl
    cases e
    obtain rfl : i = i' := some.inj (hi.symm.trans hat.1)
    rw [hcall.heir stored rfl row (mem_singleton.mpr rfl), ← hv']
    have := hat.2.symm.trans (Db.rows_of_slot hslot)
    rw [some.inj this]
  refine h.commit hk (some row) hcall.inserts ?_ ?_
  · rintro token' row' ⟨⟩ ⟨⟩
    refine ⟨⟨i, w, ⟨hrows.findIdx? (fun hkin => hkin.hasToken token) hi, hrow'⟩,
      hmark.revoked⟩, ?_⟩
    exact (h.held c token _ hc rfl).not_spent
  rintro row' ⟨⟩ j r₀ r hr₀ hr hkin hr_live e
  -- a live row of that family was the one held, which is marked now
  obtain rfl : j = i := by
    refine h.single i j v r₀ (Db.rows_of_slot hslot) hr₀ hlive (hkin.live hr_live) ?_
    rw [← hkin.familyId, e, hfam]
  obtain rfl : r = w := some.inj (hr.symm.trans hrow')
  rw [hmark.revoked] at hr_live
  cases hr_live

/-! ## Runs -/

/-- A rotation's `UPDATE` on a row that is still live: it now holds that row. -/
theorem Chained.revoke {i : ℕ} {now : Instant} (hc : s.calls[c]? = some ⟨work, .revoking i stored⟩)
    (hlive : s.stillLive (.revoke c now) = true)
    (hu : s.db.update c i (RefreshToken.markRevoked .rotated now) = some db') :
    Chained (s.goto db' c work (.reading stored)) := by
  refine h.uncommitted (.update hu) (Db.rows_update hu) ?_ nofun
  rintro token rfl _
  obtain ⟨v, w, hrow, hslot⟩ := Db.slots_update hu
  refine ⟨i, v, w, ?_, hslot, ?_⟩
  · rw [Db.rows_update hu]
    exact (hk.calls c _ hc).target i rfl token rfl
  · simpa [Sys.stillLive, hc, hrow] using hlive

theorem Chained.move (hok : s.stillLive a = true) (hm : Move s a s') : Chained s' := by
  -- a step that only reads, into a phase that is not past the `UPDATE`
  have quiet : ∀ {c : ℕ} {work : Work} {p' : Phase}, p'.holds = false →
      (∀ row, p' ≠ .done (.issued row)) → Chained (s.goto s.db c work p') := by
    intro c work p' hp' hissued
    refine h.uncommitted (.of_slots_eq rfl) rfl ?_ hissued
    intro token _ e
    rw [hp'] at e
    cases e
  cases hm with
  | @call work _ p hp =>
    have hold : ∀ {d : ℕ} {call : Call}, (s.calls ++ [⟨work, p⟩])[d]? = some call →
        call.phase.holds = true ∨ (∃ row, call.phase = .done (.issued row)) →
        s.calls[d]? = some call := by
      intro d call hd hphase
      rcases getElem?_append_cases hd with ⟨-, rfl⟩ | ⟨-, hd⟩
      · rcases hp with rfl | ⟨e, rfl⟩
        · rcases hphase with e | ⟨row, e⟩ <;> cases e
        · rcases hphase with e | ⟨row, e⟩ <;> cases e
      · exact hd
    refine ⟨?_, ?_, ?_, h.single⟩
    · intro d token q hd hq
      exact h.held d token q (hold hd (.inl hq)) hq
    · intro d token row hd
      exact h.spent d token row (hold hd (.inr ⟨row, rfl⟩))
    · intro d d' token row row' hd hd'
      exact h.once d d' token row row' (hold hd (.inr ⟨row, rfl⟩)) (hold hd' (.inr ⟨row', rfl⟩))
  | leave hc _ ho =>
    refine h.uncommitted .rollback Db.rows_rollback nofun ?_
    rintro row ⟨⟩
    cases ho
  | found | toEnd | unknown | again | select =>
    exact quiet rfl nofun
  | vanished hc hf =>
    -- rows are never deleted, so the second lookup cannot miss
    obtain ⟨token', i, row, e, hat, -⟩ := (hk.calls _ _ hc).origin _ rfl
    cases e
    exact absurd ((Db.findIdx?_of_find_eq_none hf).symm.trans hat.1) (by simp)
  | revoke hc hu => exact h.revoke hk hc hok hu
  | account hc =>
    refine h.uncommitted (.of_slots_eq rfl) rfl ?_ nofun
    rintro token rfl _
    exact h.held _ token _ hc rfl
  | create hc _ hi =>
    have hslots := Db.slots_insert hi
    refine h.uncommitted (.of_slots_eq hslots) (Db.rows_insert hi) ?_ nofun
    rintro token rfl _
    obtain ⟨i, v, w, hf, hslot, hlive⟩ := h.held _ token _ hc rfl
    exact ⟨i, v, w, (Db.rows_insert hi).symm ▸ hf, hslots.symm ▸ hslot, hlive⟩
  | login hc _ _ hi =>
    exact h.uncommitted (.of_slots_eq (Db.slots_insert hi)) (Db.rows_insert hi) nofun nofun
  | mark hc hu => exact h.uncommitted (.update hu) (Db.rows_update hu) nofun nofun
  | rotated hc =>
    obtain ⟨token, i, r, e, -, -⟩ := (hk.calls _ _ hc).origin _ rfl
    cases e
    exact h.commit_rotation hk hc
  | opened hc => exact h.commit_login hk hc
  | ended hc | left hc => exact h.commit_nothing hk hc rfl nofun

end

/-- **Rotation is single-use** in every run in which each rotation's `UPDATE` finds its row
    still live: no token is exchanged twice, and no family has two live tokens. -/
theorem rotation_single_use
    (hrun : Run (Sys.step · decodeToken) (fun s a => s.stillLive a = true) {} s) :
    SingleUse s.calls ∧ SingleLink s.db.rows := by
  have h : Chained _ := hrun.invariant_with (fun hk _ hstep => Kept.move hk (step_move hstep))
    (fun hk h hok hstep => h.move hk hok (step_move hstep)) kept_init chained_init
  exact ⟨h.once, h.single⟩

/-- A login, committed, as the call `c`. -/
def grant (c : ℕ) (token : Token) (family : Uuid) : List Action :=
  [.call (.login 7) 0, .create c token (.aware 9) family, .commit c]

/-- What a refresh does once `get_by_token` has found its row live. -/
def rotate (c : ℕ) (successor : Token) : List Action :=
  [.selectAgain c, .revoke c 0, .getUser c (some true), .create c successor (.aware 9) 0,
    .commit c]

/-- Two refreshes of one token, one after the other: the second ends the family. -/
def replayedRefresh : List Action :=
  grant 0 "t" 1 ++ [.call (.refresh "t") 0, .getByToken 1 0] ++ rotate 1 "a" ++
    [.call (.refresh "t") 0, .getByToken 2 0, .selectFamily 2, .markMember 2 1 0, .commit 2]

theorem rotation_single_use_replayed :
    ∃ s, Run (Sys.step · fun _ _ => some ⟨some .refresh⟩) (fun s a => s.stillLive a = true)
      {} s ∧ (s.calls.map (·.phase))[2]? = some (.done (.ended 1 .reuseDetected)) ∧
      SingleUse s.calls ∧ SingleLink s.db.rows := by
  refine Run.exists_of_replay_and replayedRefresh (by decide +kernel) fun hrun _ => ?_
  exact rotation_single_use hrun

/-- Two refreshes of one token that both read it before either writes. -/
def racingRefreshes : List Action :=
  grant 0 "t" 1 ++ [.call (.refresh "t") 0, .call (.refresh "t") 0, .getByToken 1 0,
    .getByToken 2 0] ++ rotate 1 "a" ++ rotate 2 "b"

/-- Both of them succeed, and the family has two live tokens. -/
theorem racing_refreshes_both_succeed :
    ∃ s, Run (Sys.step · fun _ _ => some ⟨some .refresh⟩) Always {} s ∧
      ¬ SingleUse s.calls ∧ ¬ SingleLink s.db.rows := by
  obtain ⟨s, hrun, hcall, hcall', hrow, hrow'⟩ : ∃ s,
      Run (Sys.step · fun _ _ => some ⟨some .refresh⟩) Always {} s ∧
      s.calls[1]? = some ⟨.refresh "t",
        .done (.issued ⟨"a", 7, 1, .aware 9, false, none, none⟩)⟩ ∧
      s.calls[2]? = some ⟨.refresh "t",
        .done (.issued ⟨"b", 7, 1, .aware 9, false, none, none⟩)⟩ ∧
      s.db.rows[1]? = some ⟨"a", 7, 1, .aware 9, false, none, none⟩ ∧
      s.db.rows[2]? = some ⟨"b", 7, 1, .aware 9, false, none, none⟩ :=
    Run.exists_of_replay racingRefreshes (by decide +kernel)
  refine ⟨s, hrun, ?_, ?_⟩
  · intro hsingle
    exact absurd (hsingle 1 2 _ _ _ hcall hcall') (by decide)
  · intro hsingle
    exact absurd (hsingle 1 2 _ _ hrow hrow' rfl rfl rfl) (by decide)

end Auth
