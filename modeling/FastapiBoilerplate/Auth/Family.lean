import FastapiBoilerplate.Auth.Sessions

/-!
# Is an ended family over?

`revoke_family` reads the live rows of a family and then marks the rows it read. A rotation
of the same family that is under way at that moment is invisible to it: its successor is
inserted and not committed, or not inserted yet. When both have committed the successor is
live, and the grant that a logout or a detected replay has ended goes on.

It takes the two to overlap. `apart` is the condition that they do not: `revoke_family` reads
the family while no rotation of it is under way, and a rotation begins, by reading a live row
of the family, while nobody is between that read and the end of its transaction. (One lock for
each family, taken by both, would make it so.) Under it an ended family is over, at once and
for good.
-/

namespace Auth

open Lib Lib.ReadCommitted List

/-- The call is rotating a row of the family. -/
def Call.rotates (family : Uuid) (call : Call) : Bool :=
  call.phase.rotation.any (·.familyId == family)

/-- The call has read which rows of the family to mark, and has not committed. -/
def Call.marks (family : Uuid) (call : Call) : Bool :=
  match call.phase with
  | .marking f _ _ => f == family
  | _ => false

/-- A family is not rotated and ended at the same time. -/
def Sys.apart (s : Sys) : Action → Bool
  | .getByToken c _ =>
    match s.calls[c]? with
    | some ⟨.refresh token, .called⟩ =>
      (s.getByToken token).all fun stored =>
        stored.revoked || !s.calls.any (Call.marks stored.familyId)
    | _ => true
  | .selectFamily c =>
    match s.calls[c]? with
    | some ⟨_, .ending family _⟩ => !s.calls.any (Call.rotates family)
    | _ => true
  | _ => true

/-- The call has read a family to end it, and has not rolled back. -/
def Phase.closes : Phase → Bool
  | .marking _ _ _ => true
  | .done (.ended _ _) => true
  | _ => false

/-- No rotation of the family is under way. -/
def Quiet (calls : List Call) (family : Uuid) : Prop :=
  ∀ call ∈ calls, ∀ stored, call.phase.rotation = some stored → stored.familyId ≠ family

/-- Every row of the family that is live in the table is still to be marked by the call `c`,
    or is locked by it. -/
def Cleared (db : Db RefreshToken) (c : ℕ) (family : Uuid) (ids : List ℕ) : Prop :=
  ∀ (i : ℕ) (row : RefreshToken), db.rows[i]? = some row → row.revoked = false →
    row.familyId = family → i ∈ ids ∨ ∃ w, db.slots[i]? = some ⟨row, some (c, w)⟩

/-- No row of the family is live. -/
def Over (rows : List RefreshToken) (family : Uuid) : Prop :=
  ∀ row ∈ rows, row.familyId = family → row.revoked = true

structure Sealed (s : Sys) : Prop where
  marking : ∀ (c : ℕ) (work : Work) (family : Uuid) (reason : RevocationReason)
    (ids : List ℕ), s.calls[c]? = some ⟨work, .marking family reason ids⟩ →
    Quiet s.calls family ∧ Cleared s.db c family ids
  ended : ∀ (c : ℕ) (work : Work) (family : Uuid) (reason : RevocationReason),
    s.calls[c]? = some ⟨work, .done (.ended family reason)⟩ →
    Quiet s.calls family ∧ Over s.db.rows family

variable {s s' : Sys} {a : Action} {decodeToken : Token → Instant → Option Payload}

theorem sealed_init : Sealed {} where
  marking _ _ _ _ _ := nofun
  ended _ _ _ _ := nofun

/-! ## What a commit of somebody else can bring -/

variable {c : ℕ} {call : Call} {family : Uuid} {work : Work} {p' : Phase} {db' : Db RefreshToken}

variable {i : ℕ} {ids : List ℕ} {p : Phase} {now : Instant} {reason : RevocationReason}

section Commit

variable (hk : Kept s) (hc : s.calls[c]? = some call) (hq : Quiet s.calls family)
  (hrow : ∃ row ∈ s.db.rows, row.familyId = family)

include hk hc hq hrow

/-- A commit adds no row to a family that is quiet and in the table. -/
theorem commit_row_of_quiet {r : RefreshToken} (hr : (s.db.commit c).rows[i]? = some r)
    (hfam : r.familyId = family) :
    ∃ r₀, s.db.rows[i]? = some r₀ ∧ Kin r₀ r := by
  rcases commit_row_cases hk hr with hold | ⟨-, hnew⟩
  · exact hold
  obtain ⟨work, p⟩ := call
  have hcall := hk.calls c _ hc
  have hmem : r ∈ p.inserted := hcall.inserts ▸ mem_of_getElem? hnew
  cases p with
  | committing stored =>
    have hne := hq _ (mem_of_getElem? hc) stored rfl
    exact absurd ((hcall.heir stored rfl r hmem).symm.trans hfam) hne
  | opening =>
    obtain rfl := mem_singleton.mp hmem
    obtain ⟨row₀, hrow₀, e⟩ := hrow
    exact absurd (e.trans hfam.symm) (hk.fresh c work r hc row₀ hrow₀)
  | _ => cases hmem

theorem Over.commit (h : Over s.db.rows family) : Over (s.db.commit c).rows family := by
  intro r hr hfam
  obtain ⟨i, hi⟩ := mem_iff_getElem?.mp hr
  obtain ⟨r₀, hr₀, hkin⟩ := commit_row_of_quiet hk hc hq hrow hi hfam
  exact hkin.revoked (h r₀ (mem_of_getElem? hr₀) (hkin.familyId.symm.trans hfam))

/-- Another session's commit: the rows this one has locked do not change under it. -/
theorem Cleared.commit {d : ℕ} (h : Cleared s.db d family ids) (hne : d ≠ c) :
    Cleared (s.db.commit c) d family ids := by
  intro i r hr hlive hfam
  obtain ⟨r₀, hr₀, hkin⟩ := commit_row_of_quiet hk hc hq hrow hr hfam
  rcases h i r₀ hr₀ (hkin.live hlive) (hkin.familyId.symm.trans hfam) with hmem | ⟨w, hslot⟩
  · exact .inl hmem
  have hslot' := Db.KeepsLocks.commit i r₀ d w hne hslot
  rw [Db.rows_of_slot hslot'] at hr
  cases hr
  exact .inr ⟨w, hslot'⟩

/-- Its own commit, when there is nothing left to mark: nothing is left alive. -/
theorem Cleared.over (h : Cleared s.db c family []) : Over (s.db.commit c).rows family := by
  intro r hr hfam
  obtain ⟨i, hi⟩ := mem_iff_getElem?.mp hr
  obtain ⟨r₀, hr₀, hkin⟩ := commit_row_of_quiet hk hc hq hrow hi hfam
  cases hrev : r.revoked with
  | true => rfl
  | false =>
    rcases h i r₀ hr₀ (hkin.live hrev) (hkin.familyId.symm.trans hfam) with hmem | ⟨w, hslot⟩
    · cases hmem
    -- the row was locked to be marked, and the commit has marked it
    rw [Db.rows_of_slot (Db.slots_commit hslot), Slot.settle_self] at hi
    cases hi
    exact hrev.symm.trans (hk.pending i _ c _ hslot rfl).revoked

end Commit

/-! ## Steps -/

theorem Quiet.set {calls : List Call} (h : Quiet calls family)
    (hp' : ∀ stored, p'.rotation = some stored → stored.familyId ≠ family) :
    Quiet (calls.set c ⟨work, p'⟩) family :=
  forall_mem_set h hp'

/-- Somebody is marking the family's rows. -/
def Marked (calls : List Call) (family : Uuid) : Prop :=
  ∃ (d : ℕ) (work : Work) (reason : RevocationReason) (ids : List ℕ),
    calls[d]? = some ⟨work, .marking family reason ids⟩

section

variable (h : Sealed s) (hk : Kept s)

include h hk

/-- One session goes on. It may not begin to rotate a family that is being ended or has been;
    what it does to the table must leave the others' work on their families as it was. -/
theorem Sealed.goto
    (hrot : ∀ family stored, Quiet s.calls family →
      (Marked s.calls family ∨ Over s.db.rows family) → p'.rotation = some stored →
      stored.familyId ≠ family)
    (hcleared : ∀ d family ids, d ≠ c → Quiet s.calls family →
      (∃ row ∈ s.db.rows, row.familyId = family) → Cleared s.db d family ids →
      Cleared db' d family ids)
    (hover : ∀ family, Quiet s.calls family → (∃ row ∈ s.db.rows, row.familyId = family) →
      Over s.db.rows family → Over db'.rows family)
    (hmark : ∀ family reason ids, p' = .marking family reason ids →
      Quiet s.calls family ∧ Cleared db' c family ids)
    (hend : ∀ family reason, p' = .done (.ended family reason) →
      Quiet s.calls family ∧ Over db'.rows family) :
    Sealed (s.goto db' c work p') where
  marking := by
    intro d work' family reason ids hd
    rcases getElem?_set_cases hd with ⟨rfl, e⟩ | ⟨hne, hold⟩
    · obtain ⟨-, rfl⟩ := Call.mk.inj e
      obtain ⟨hq, hcl⟩ := hmark family reason ids rfl
      exact ⟨hq.set nofun, hcl⟩
    · obtain ⟨hq, hcl⟩ := h.marking d work' family reason ids hold
      refine ⟨hq.set fun stored hs => ?_, ?_⟩
      · exact hrot family stored hq (.inl ⟨d, work', reason, ids, hold⟩) hs
      · exact hcleared d family ids hne hq ((hk.calls d _ hold).family family rfl) hcl
  ended := by
    intro d work' family reason hd
    rcases getElem?_set_cases hd with ⟨rfl, e⟩ | ⟨hne, hold⟩
    · obtain ⟨-, rfl⟩ := Call.mk.inj e
      obtain ⟨hq, ho⟩ := hend family reason rfl
      exact ⟨hq.set nofun, ho⟩
    · obtain ⟨hq, ho⟩ := h.ended d work' family reason hold
      refine ⟨hq.set fun stored hs => ?_, ?_⟩
      · exact hrot family stored hq (.inr ho) hs
      · exact hover family hq ((hk.calls d _ hold).family family rfl) ho

theorem Sealed.uncommitted (hlocks : Db.KeepsLocks c s.db db')
    (hrows : db'.rows = s.db.rows)
    (hrot : ∀ family stored, Quiet s.calls family →
      (Marked s.calls family ∨ Over s.db.rows family) → p'.rotation = some stored →
      stored.familyId ≠ family)
    (hmark : ∀ family reason ids, p' = .marking family reason ids →
      Quiet s.calls family ∧ Cleared db' c family ids)
    (hend : ∀ family reason, p' ≠ .done (.ended family reason)) :
    Sealed (s.goto db' c work p') := by
  refine h.goto hk hrot ?_ ?_ hmark (fun family reason e => absurd e (hend family reason))
  · intro d family ids hne _ _ hcl i row hrow hlive hfam
    rw [hrows] at hrow
    rcases hcl i row hrow hlive hfam with hmem | ⟨w, hslot⟩
    · exact .inl hmem
    · exact .inr ⟨w, hlocks i row d w hne hslot⟩
  · intro family _ _ ho
    rw [hrows]
    exact ho

theorem Sealed.onward (hc : s.calls[c]? = some ⟨work, p⟩) (hlocks : Db.KeepsLocks c s.db db')
    (hrows : db'.rows = s.db.rows) (hrot : p'.rotation = none ∨ p'.rotation = p.rotation)
    (hcl : p'.closes = false) : Sealed (s.goto db' c work p') := by
  refine h.uncommitted hk hlocks hrows ?_ ?_ ?_
  · intro family stored hq _ hs
    rcases hrot with hnone | hsame
    · exact absurd (hnone.symm.trans hs) (by simp)
    · exact hq _ (mem_of_getElem? hc) stored (hsame.symm.trans hs)
  · rintro family reason ids rfl
    cases hcl
  · rintro family reason rfl
    cases hcl

theorem Sealed.commit
    {o : Outcome} (hc : s.calls[c]? = some ⟨work, p⟩)
    (hend : ∀ family reason, o = .ended family reason →
      Quiet s.calls family ∧ Over (s.db.commit c).rows family) :
    Sealed (s.goto (s.db.commit c) c work (.done o)) := by
  refine h.goto hk nofun ?_ ?_ nofun ?_
  · intro d family ids hne hq hrow hcl
    exact hcl.commit hk hc hq hrow hne
  · intro family hq hrow ho
    exact ho.commit hk hc hq hrow
  · rintro family reason ⟨⟩
    exact hend family reason rfl

/-- A rotation begins: by the guard nobody is marking the family, and since the row is live
    nobody has ended it. -/
theorem Sealed.found {token : Token} {stored : RefreshToken}
    (hc : s.calls[c]? = some ⟨.refresh token, .called⟩) (hf : s.getByToken token = some stored)
    (hlive : stored.revoked = false) (hok : s.apart (.getByToken c now) = true) :
    Sealed (s.goto s.db c (.refresh token) (.rotating stored)) := by
  refine h.uncommitted hk (.of_slots_eq rfl) rfl ?_ nofun nofun
  rintro family stored' hq hclosing ⟨⟩ rfl
  rcases hclosing with ⟨d, work, reason, ids, hd⟩ | hover
  · have hnone : s.calls.any (Call.marks stored.familyId) = false := by
      simpa [Sys.apart, hc, hf, hlive] using hok
    have hmarks := any_eq_false.mp hnone _ (mem_of_getElem? hd)
    exact hmarks (beq_iff_eq.mpr rfl)
  · obtain ⟨i, hat⟩ := at_of_getByToken hf
    have hrev := hover stored (mem_of_getElem? hat.2) rfl
    rw [hlive] at hrev
    cases hrev

/-- `revoke_family` reads: by the guard no rotation of the family is under way. -/
theorem Sealed.select (hc : s.calls[c]? = some ⟨work, .ending family reason⟩)
    (hok : s.apart (.selectFamily c) = true) :
    Sealed (s.goto s.db c work (.marking family reason (s.db.select (isLiveIn family)))) := by
  refine h.uncommitted hk (.of_slots_eq rfl) rfl nofun ?_ nofun
  rintro family' reason' ids ⟨⟩
  constructor
  · intro call hmem stored hs e
    have hnone : s.calls.any (Call.rotates family) = false := by
      simpa [Sys.apart, hc] using hok
    refine any_eq_false.mp hnone call hmem ?_
    rw [Call.rotates, hs]
    exact beq_iff_eq.mpr e
  · intro i row hrow hlive hfam
    refine .inl (Db.mem_select.mpr ⟨row, hrow, ?_⟩)
    simp [isLiveIn, hfam, hlive]

/-- One `UPDATE` of `revoke_family`: the row is locked from now on, and need not be marked
    again. -/
theorem Sealed.mark (hc : s.calls[c]? = some ⟨work, .marking family reason ids⟩)
    (hu : s.db.update c i (RefreshToken.markRevoked reason now) = some db') :
    Sealed (s.goto db' c work (.marking family reason (ids.erase i))) := by
  obtain ⟨hq, hcl⟩ := h.marking c work family reason ids hc
  obtain ⟨slot, v, hslot, -, rfl⟩ := Db.update_eq_some hu
  have hrows := Db.rows_update hu
  refine h.uncommitted hk (.update hu) hrows nofun ?_ nofun
  rintro family' reason' ids' ⟨⟩
  refine ⟨hq, ?_⟩
  intro j row hrow hlive hfam
  rw [hrows] at hrow
  by_cases hij : j = i
  · subst hij
    have hv : slot.committed = row :=
      Option.some.inj ((Db.rows_of_slot hslot).symm.trans hrow)
    refine .inr ⟨RefreshToken.markRevoked reason now v, ?_⟩
    rw [getElem?_set_at hslot, hv]
  · rcases hcl j row hrow hlive hfam with hmem | ⟨w, hw⟩
    · exact .inl ((mem_erase_of_ne hij).mpr hmem)
    refine .inr ⟨w, ?_⟩
    rw [getElem?_set_ne (Ne.symm hij)]
    exact hw

theorem Sealed.move (hok : s.apart a = true) (hm : Move s a s') : Sealed s' := by
  cases hm with
  | @call work _ p hp =>
    have hquiet : ∀ {family : Uuid}, Quiet s.calls family →
        Quiet (s.calls ++ [⟨work, p⟩]) family := by
      intro family hq
      refine forall_mem_snoc hq fun stored hs => ?_
      rcases hp with rfl | ⟨e, rfl⟩ <;> cases hs
    refine ⟨?_, ?_⟩
    · intro d work' family reason ids hd
      rcases getElem?_append_cases hd with ⟨-, e⟩ | ⟨-, hold⟩
      · rcases hp with rfl | ⟨e', rfl⟩ <;> cases e
      · obtain ⟨hq, hcl⟩ := h.marking d work' family reason ids hold
        exact ⟨hquiet hq, hcl⟩
    · intro d work' family reason hd
      rcases getElem?_append_cases hd with ⟨-, e⟩ | ⟨-, hold⟩
      · rcases hp with rfl | ⟨e', rfl⟩ <;> cases e
      · obtain ⟨hq, ho⟩ := h.ended d work' family reason hold
        exact ⟨hquiet hq, ho⟩
  | @leave _ _ _ _ o hc _ ho =>
    refine h.onward hk hc .rollback Db.rows_rollback (.inl rfl) ?_
    cases o with
    | ended => cases ho
    | _ => rfl
  -- the guard is for this step and for `select`: a rotation and an ending that begin
  | found hc hf hlive => exact h.found hk hc hf hlive hok
  | toEnd hc | unknown hc => exact h.onward hk hc (.of_slots_eq rfl) rfl (.inl rfl) rfl
  | again hc | vanished hc | account hc =>
    exact h.onward hk hc (.of_slots_eq rfl) rfl (.inr rfl) rfl
  | revoke hc hu => exact h.onward hk hc (.update hu) (Db.rows_update hu) (.inr rfl) rfl
  | create hc _ hi =>
    exact h.onward hk hc (.of_slots_eq (Db.slots_insert hi)) (Db.rows_insert hi) (.inr rfl) rfl
  | login hc _ _ hi =>
    exact h.onward hk hc (.of_slots_eq (Db.slots_insert hi)) (Db.rows_insert hi) (.inl rfl) rfl
  | select hc => exact h.select hk hc hok
  | mark hc hu => exact h.mark hk hc hu
  | rotated hc | opened hc | left hc => exact h.commit hk hc nofun
  | ended hc =>
    -- nothing is left to mark, and what was marked is locked: the commit ends the family
    obtain ⟨hq, hcl⟩ := h.marking _ _ _ _ [] hc
    refine h.commit hk hc ?_
    rintro family' reason' ⟨⟩
    exact ⟨hq, hcl.over hk hc hq ((hk.calls _ _ hc).family _ rfl)⟩

end

/-! ## Runs -/

/-- The token's row is in the family. -/
def InFamily (rows : List RefreshToken) (token : Token) (family : Uuid) : Prop :=
  ∃ i row, At rows token i row ∧ row.familyId = family

/-- Whatever refresh has issued a row into the family by `t` had done so by `s`. -/
def NoneSince (s t : Sys) (family : Uuid) : Prop :=
  ∀ (d : ℕ) (token : Token) (row : RefreshToken),
    t.calls[d]? = some ⟨.refresh token, .done (.issued row)⟩ → row.familyId = family →
    s.calls[d]? = some ⟨.refresh token, .done (.issued row)⟩

/-- A step issues no token into a family of which no rotation is under way. -/
theorem NoneSince.move {t u : Sys} (h : NoneSince s t family) (hk : Kept t)
    (hq : Quiet t.calls family) (hm : Move t a u) : NoneSince s u family := by
  intro d token row hd hfam
  rcases hm.issued hd with hold | ⟨stored, hc⟩ | hc
  · exact h d token row hold hfam
  · have hheir := (hk.calls d _ hc).heir stored rfl row (mem_singleton.mpr rfl)
    exact absurd (hheir.symm.trans hfam) (hq _ (mem_of_getElem? hc) stored rfl)
  · obtain ⟨user, e⟩ := (hk.calls d _ hc).opener (by simp [Phase.login])
    cases e

/-- **An ended family is over**, at once and for good, in every run that keeps rotations and
    endings of one family apart: once a transaction that called `revoke_family` has
    committed, no token of the family is live, then or later, and no refresh with one of its
    tokens succeeds that had not succeeded by then. -/
theorem ended_family_is_over
    (hrun : Run (Sys.step · decodeToken) (fun s a => s.apart a = true) {} s)
    {c : ℕ} {work : Work} {family : Uuid} {reason : RevocationReason}
    (hc : s.calls[c]? = some ⟨work, .done (.ended family reason)⟩) {t : Sys}
    (hlater : Run (Sys.step · decodeToken) (fun s a => s.apart a = true) s t) :
    Over t.db.rows family ∧
      ∀ (d : ℕ) (token : Token) (row : RefreshToken),
        t.calls[d]? = some ⟨.refresh token, .done (.issued row)⟩ →
        InFamily t.db.rows token family →
        s.calls[d]? = some ⟨.refresh token, .done (.issued row)⟩ := by
  have keep : ∀ {t u : Sys} {a : Action}, Kept t ∧ Sealed t → t.apart a = true →
      t.step decodeToken a = some u → Kept u ∧ Sealed u := by
    intro t u a ⟨hk, h⟩ hok hstep
    have hm := step_move hstep
    exact ⟨hk.move hm, h.move hk hok hm⟩
  have hs := hrun.invariant keep ⟨kept_init, sealed_init⟩
  -- from `s` on, the call that ended the family stays where it is
  let Since (t : Sys) : Prop := (Kept t ∧ Sealed t) ∧
    t.calls[c]? = some ⟨work, .done (.ended family reason)⟩ ∧ NoneSince s t family
  have keepSince : ∀ {t u : Sys} {a : Action}, Since t → t.apart a = true →
      t.step decodeToken a = some u → Since u := by
    intro t u a ⟨hinv, hct, hnone⟩ hok hstep
    have hm := step_move hstep
    refine ⟨keep hinv hok hstep, hm.done hct, ?_⟩
    exact hnone.move hinv.1 (hinv.2.ended c work family reason hct).1 hm
  obtain ⟨⟨hk, h⟩, hct, hnone⟩ :=
    hlater.invariant keepSince ⟨hs, hc, fun _ _ _ hd _ => hd⟩
  refine ⟨(h.ended c work family reason hct).2, ?_⟩
  rintro d token row hd ⟨i, r, hat, hfam⟩
  -- the token was exchanged for a row of its own family
  obtain ⟨i', r', hat', hrow⟩ := (hk.calls d _ hd).issued token row rfl rfl
  obtain rfl : i = i' := Option.some.inj (hat.1.symm.trans hat'.1)
  obtain rfl : r = r' := Option.some.inj (hat.2.symm.trans hat'.2)
  exact hnone d token row hd (hrow.trans hfam)

/-- What a refresh does up to its `INSERT`, and a logout up to its `SELECT`. -/
def rotateUncommitted (c : ℕ) (successor : Token) : List Action :=
  [.getByToken c 0, .selectAgain c, .revoke c 0, .getUser c (some true),
    .create c successor (.aware 9) 0]

/-- A login, a refresh and a logout, one after the other. -/
def loginRefreshLogout : List Action :=
  [.call (.login 7) 0, .create 0 "t" (.aware 9) 1, .commit 0, .call (.refresh "t") 0] ++
    rotateUncommitted 1 "a" ++ [.commit 1, .call (.logout "a") 0, .getByToken 2 0,
      .selectFamily 2, .markMember 2 1 0, .commit 2]

theorem ended_family_is_over_after_refresh :
    ∃ s, Run (Sys.step · fun _ _ => some ⟨some .refresh⟩) (fun s a => s.apart a = true)
      {} s ∧ s.calls[2]? = some ⟨.logout "a", .done (.ended 1 .logout)⟩ ∧
      Over s.db.rows 1 := by
  refine Run.exists_of_replay_and loginRefreshLogout (by decide +kernel) fun hrun hs => ?_
  exact (ended_family_is_over hrun hs .refl).1

/-- A refresh that has not committed when a logout reads the family. The logout waits for the
    row they share, and has never heard of the successor. -/
def racingLogout : List Action :=
  [.call (.login 7) 0, .create 0 "t" (.aware 9) 1, .commit 0, .call (.refresh "t") 0,
    .call (.logout "t") 0] ++ rotateUncommitted 1 "a" ++
    [.getByToken 2 0, .selectFamily 2, .commit 1, .markMember 2 0 0, .commit 2]

/-- Every call has ended, the logout by ending the family; the successor is live, and buys
    another token. -/
theorem racing_logout_leaves_a_session :
    ∃ s t, Run (Sys.step · fun _ _ => some ⟨some .refresh⟩) Always {} s ∧
      s.calls[2]? = some ⟨.logout "t", .done (.ended 1 .logout)⟩ ∧
      (∀ call ∈ s.calls, ∃ o, call.phase = .done o) ∧ ¬ Over s.db.rows 1 ∧
      Run (Sys.step · fun _ _ => some ⟨some .refresh⟩) Always s t ∧
      s.calls.length = 3 ∧ ∃ row : RefreshToken, row.familyId = 1 ∧
        t.calls[3]? = some ⟨.refresh "a", .done (.issued row)⟩ := by
  let successor : RefreshToken := ⟨"a", 7, 1, .aware 9, false, none, none⟩
  obtain ⟨s, hrun, hcalls, hrow, hlater⟩ : ∃ s,
      Run (Sys.step · fun _ _ => some ⟨some .refresh⟩) Always {} s ∧
      s.calls = [⟨.login 7, .done (.issued ⟨"t", 7, 1, .aware 9, false, none, none⟩)⟩,
        ⟨.refresh "t", .done (.issued successor)⟩,
        ⟨.logout "t", .done (.ended 1 .logout)⟩] ∧ s.db.rows[1]? = some successor ∧
      (replay (Sys.step · fun _ _ => some ⟨some .refresh⟩) Always s
        (.call (.refresh "a") 0 :: rotateUncommitted 3 "b" ++ [.commit 3])).any (fun t =>
          t.calls[3]? = some ⟨.refresh "a",
            .done (.issued ⟨"b", 7, 1, .aware 9, false, none, none⟩)⟩) = true :=
    Run.exists_of_replay racingLogout (by decide +kernel)
  obtain ⟨t, hrun', ht⟩ := Run.exists_of_replay _ hlater
  refine ⟨s, t, hrun, by rw [hcalls]; rfl, ?_, ?_, hrun', by rw [hcalls]; rfl, _, ?_, ht⟩
  · rw [hcalls]
    intro call hmem
    simp only [mem_cons, not_mem_nil, or_false] at hmem
    rcases hmem with rfl | rfl | rfl <;> exact ⟨_, rfl⟩
  · intro hover
    exact absurd (hover successor (mem_of_getElem? hrow) rfl) (by decide)
  · rfl

end Auth
