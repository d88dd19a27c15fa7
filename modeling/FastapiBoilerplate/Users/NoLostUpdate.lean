import FastapiBoilerplate.Lib.Except
import FastapiBoilerplate.Users.Profile

/-!
# No profile update is lost

Two checks guard a write, and neither does without the other. The precondition compares the
client's tag with the row that was loaded; the version in the `UPDATE` compares the row that was
loaded with the row that is there. Between them they say that what a `PATCH` overwrites is what its
client has seen: `no_lost_update`.

The invariant speaks of the two windows in turn. A loaded row is the committed one or an older
version of it (`Behind`), so that the version is enough to tell them apart; and a row that waits to
be committed was made from the row it will replace (`Inv.pending`).
-/

namespace Users

open Lib Lib.ReadCommitted Concurrency List Option

variable {s s' : Sys}

/-! ## What is claimed of a commit -/

section
variable [Unicode]

/-- The header allows the write of a row that was loaded as `before`. -/
structure Permits (ifMatch : List Text) (before : User) : Prop where
  present : ifMatch ≠ []
  lists : stripBy isOws (List.intercalate (lit ", ") ifMatch) = lit "*" ∨
    ∃ tags, parseEntityTagList (List.intercalate (lit ", ") ifMatch) "If-Match" = .ok tags ∧
      ∃ tag ∈ tags, tag.weak = false ∧ tag.value = (profileEtag before).value

/-- What a `PATCH` makes of a row. -/
def patched (changes : ProfileUpdateRequest) (before : User) : User :=
  { changes.apply before with version := before.version + 1 }

/-- A commit is the work of a `PATCH` that had loaded the row it replaces. -/
def Produced (s : Sys) (before : User) (commit : Commit) : Prop :=
  ∃ user changes ifMatch ifNoneMatch phase,
    s.calls[commit.call]? =
      some ⟨.patch user changes ifMatch ifNoneMatch, some (commit.place, before), phase⟩ ∧
    Permits ifMatch before ∧ commit.row = patched changes before

/-- The commits that lead from one row to another, each from where the one before it ended. -/
inductive History (s : Sys) (first : User) : List Commit → User → Prop
  | nil : History s first [] first
  | snoc {commits : List Commit} {last : User} {commit : Commit} (init : History s first commits last)
      (next : Produced s last commit) : History s first (commits ++ [commit]) commit.row

end

/-- The commits of one row. -/
def Sys.commitsOf (s : Sys) (i : ℕ) : List Commit := s.commits.filter (·.place = i)

/-! ## What a step does -/

section
variable [Unicode]

inductive Effect (s s' : Sys) : Prop
  | request (request : Request) (heq : s' = { s with calls := s.calls ++ [{ request }] })
  | load (c : ℕ) (request : Request) (i : ℕ) (row : User)
      (hcall : s.calls[c]? = some ⟨request, none, .received⟩) (hrow : s.db.rows[i]? = some row)
      (heq : s' = { s with calls := s.calls.set c ⟨request, some (i, row), .received⟩ })
  | allow (c : ℕ) (user : UUID) (changes : ProfileUpdateRequest) (ifMatch ifNoneMatch : List Text)
      (i : ℕ) (loaded changed : User)
      (hcall : s.calls[c]? =
        some ⟨.patch user changes ifMatch ifNoneMatch, some (i, loaded), .received⟩)
      (hok : updateProfile loaded changes ifMatch ifNoneMatch = .ok changed)
      (heq : s' = s.setPhase c
        ⟨.patch user changes ifMatch ifNoneMatch, some (i, loaded), .received⟩ (.writing changed))
  | keep (c : ℕ) (request : Request) (i : ℕ) (loaded changed : User)
      (hcall : s.calls[c]? = some ⟨request, some (i, loaded), .writing changed⟩)
      (heq : s' = s.setPhase c ⟨request, some (i, loaded), .writing changed⟩ (.committing changed))
  | write (c : ℕ) (request : Request) (i : ℕ) (loaded changed : User) (slot : Slot User)
      (row : User) (hcall : s.calls[c]? = some ⟨request, some (i, loaded), .writing changed⟩)
      (hslot : s.db.slots[i]? = some slot) (hcurrent : slot.current c = some row)
      (hversion : row.version = loaded.version)
      (heq : s' = { s with db := { s.db with slots := (s.db.slots.set i
          ⟨slot.committed, some (c, setChanged loaded changed row)⟩) } }.setPhase c
        ⟨request, some (i, loaded), .writing changed⟩
        (.committing { changed with version := loaded.version + 1 }))
  | commit (c : ℕ) (request : Request) (i : ℕ) (loaded changed : User)
      (hcall : s.calls[c]? = some ⟨request, some (i, loaded), .committing changed⟩)
      (heq : s' = ⟨s.db.commit c, s.calls.set c ⟨request, some (i, loaded),
          .done (.profile (profileEtag changed).serialize changed)⟩,
        s.commits ++ s.written c i⟩)
  | fail (c : ℕ) (call : Call) (response : Response) (hcall : s.calls[c]? = some call)
      (hphase : ∀ response, call.phase ≠ .done response) (heq : s' = s.fail c call response)

omit [Unicode] in
theorem currentUser_eq_ok {found : Option (ℕ × User)} {loaded : ℕ × User}
    (h : currentUser found = .ok loaded) : found = some loaded := by
  unfold currentUser at h
  split at h
  · cases h
  split at h
  · rw [Except.ok.inj h]
  · cases h

theorem effect_of_step {a : Action} (h : s.step a = some s') : Effect s s' := by
  cases a with simp only [Sys.step] at h
  | request request => exact .request request (some.inj h).symm
  | load c =>
    split at h <;> [split at h; skip] <;> cases h
    · exact .fail c _ _ ‹_› (by simp) rfl
    · rename_i request hcall _ found hfound
      obtain ⟨i, row⟩ := found
      exact .load c request i row hcall (Db.find_eq_some.mp (currentUser_eq_ok hfound)).2 rfl
  | handle c =>
    split at h <;> [skip; split at h; skip] <;> cases h
    · exact .fail c _ _ ‹_› (by simp) rfl
    · exact .fail c _ _ ‹_› (by simp) rfl
    · exact .allow c _ _ _ _ _ _ _ ‹_› ‹_› rfl
  | flush c =>
    split at h <;> [skip; cases h]
    rename_i request i loaded changed hcall
    unfold Sys.flush at h
    split at h
    · cases h
      exact .keep c request i loaded changed hcall rfl
    obtain ⟨row, hrow, h⟩ := bind_eq_some_iff.mp h
    obtain ⟨slot, hslot, hcurrent⟩ := bind_eq_some_iff.mp hrow
    split at h
    · next hversion =>
      obtain ⟨db, hupdate, rfl⟩ := map_eq_some_iff.mp h
      obtain ⟨slot', row', hslot', hcurrent', rfl⟩ := Db.update_eq_some hupdate
      cases hslot.symm.trans hslot'
      cases hcurrent.symm.trans hcurrent'
      exact .write c request i loaded changed slot row hcall hslot hcurrent hversion rfl
    · cases h
      exact .fail c _ _ hcall (by simp) rfl
  | commit c =>
    split at h <;> cases h
    exact .commit c _ _ _ _ ‹_› rfl
  | abort c =>
    split at h <;> cases h
    rename_i call hphase hcall
    exact .fail c call .aborted hcall
      (fun response hdone => hphase call.request call.loaded response (by rw [← hdone])) rfl

/-- A `PATCH` goes on to write only what its headers allow. -/
theorem permits_of_ok {loaded changed : User} {changes : ProfileUpdateRequest}
    {ifMatch ifNoneMatch : List Text}
    (h : updateProfile loaded changes ifMatch ifNoneMatch = .ok changed) :
    Permits ifMatch loaded ∧ changed = changes.apply loaded := by
  unfold updateProfile at h
  obtain ⟨precondition, hheader, h⟩ := bind_eq_ok.mp h
  obtain ⟨noneMatch, -, h⟩ := bind_eq_ok.mp h
  unfold update at h
  obtain ⟨_, hrequire, h⟩ := bind_eq_ok.mp h
  obtain ⟨outcome, -, h⟩ := bind_eq_ok.mp h
  obtain ⟨hpresent, hmatches⟩ := IfMatch.requireMatch_eq_ok.mp hrequire
  have hchanged : changed = changes.apply loaded := by
    split at h
    · cases h
    · exact (pure_eq_ok.mp h).symm
  refine ⟨?_, hchanged⟩
  cases ifMatch with
  | nil =>
    obtain rfl := Except.ok.inj hheader
    cases hpresent
  | cons =>
    obtain ⟨-, hstar, hlist⟩ := IfMatch.of_parse hheader
    refine ⟨cons_ne_nil _ _, ?_⟩
    rcases (IfMatch.matchesTag_iff rfl).mp hmatches with hwild | hmem
    · exact .inl (hstar.mp hwild)
    cases hwild : precondition.wildcard with
    | true => exact .inl (hstar.mp hwild)
    | false => exact .inr ⟨_, hlist hwild, hmem⟩

end

/-! ## The invariant -/

/-- A row as it was loaded, against the row that is there: the same, or an older version. -/
def Behind (loaded current : User) : Prop := loaded = current ∨ loaded.version < current.version

section
variable [Unicode] {request : Request} {c : ℕ}

structure Inv (rows : List User) (s : Sys) : Prop where
  inserts : s.db.inserts = []
  history : ∀ (i : ℕ) (first : User), rows[i]? = some first →
    ∃ current, s.db.rows[i]? = some current ∧ History s first (s.commitsOf i) current
  loaded : ∀ (c : ℕ) (request : Request) (i : ℕ) (loaded : User) (phase : Phase),
    s.calls[c]? = some ⟨request, some (i, loaded), phase⟩ →
      ∃ current, s.db.rows[i]? = some current ∧ Behind loaded current
  writing : ∀ (c : ℕ) (request : Request) (i : ℕ) (loaded changed : User),
    s.calls[c]? = some ⟨request, some (i, loaded), .writing changed⟩ →
      ∃ user changes ifMatch ifNoneMatch, request = .patch user changes ifMatch ifNoneMatch ∧
        Permits ifMatch loaded ∧ changed = changes.apply loaded
  pending : ∀ (i : ℕ) (committed row : User) (c : ℕ),
    s.db.slots[i]? = some ⟨committed, some (c, row)⟩ →
      ∃ user changes ifMatch ifNoneMatch changed,
        s.calls[c]? = some ⟨.patch user changes ifMatch ifNoneMatch, some (i, committed),
          .committing changed⟩ ∧
        Permits ifMatch committed ∧ row = patched changes committed
  logged : ∀ commit ∈ s.commits, ∃ request loaded response,
    s.calls[commit.call]? = some ⟨request, loaded, .done response⟩
  distinct : (s.commits.map (·.call)).Nodup

/-- What a request was and what it loaded stay what they are. -/
def Remembers (s s' : Sys) : Prop :=
  ∀ (c : ℕ) (request : Request) (found : ℕ × User) (phase : Phase),
    s.calls[c]? = some ⟨request, some found, phase⟩ →
      ∃ phase', s'.calls[c]? = some ⟨request, some found, phase'⟩

omit [Unicode] in
theorem Remembers.of_set {loaded : Option (ℕ × User)} {phase phase' : Phase}
    (hcall : s.calls[c]? = some ⟨request, loaded, phase⟩)
    (h : s'.calls = s.calls.set c ⟨request, loaded, phase'⟩) : Remembers s s' := by
  intro d request' found phase'' hd
  rw [h]
  by_cases hcd : c = d
  · subst hcd
    obtain ⟨rfl, rfl, rfl⟩ := Call.mk.inj (some.inj (hcall.symm.trans hd))
    exact ⟨phase', getElem?_set_at hd⟩
  · rw [getElem?_set_ne hcd]
    exact ⟨phase'', hd⟩

theorem Remembers.of_effect (h : Effect s s') : Remembers s s' := by
  cases h <;> rename_i heq <;> subst heq
  case request request =>
    intro c request' found phase hc
    exact ⟨phase, getElem?_append_of hc⟩
  case load c request i row hcall hrow =>
    intro d request' found phase hd
    exact ⟨phase, getElem?_set_of_ne hcall hd (by simp)⟩
  case allow hcall _ | write hcall _ _ _ | keep hcall | commit hcall | fail hcall _ =>
    exact .of_set hcall rfl

variable {commit : Commit} {changed first last loaded row before : User} {commits : List Commit}
  {i : ℕ} {rows : List User}

theorem Produced.remembers (h : Produced s before commit) (hkept : Remembers s s') :
    Produced s' before commit := by
  obtain ⟨user, changes, ifMatch, ifNoneMatch, phase, hcall, hrest⟩ := h
  obtain ⟨phase', hcall'⟩ := hkept _ _ _ _ hcall
  exact ⟨user, changes, ifMatch, ifNoneMatch, phase', hcall', hrest⟩

theorem History.remembers (h : History s first commits last) (hkept : Remembers s s') :
    History s' first commits last := by
  induction h with
  | nil => exact .nil
  | snoc _ next ih => exact .snoc ih (next.remembers hkept)

/-! ## What becomes of a row -/

omit [Unicode] in
theorem of_mem_written (h : commit ∈ s.written c i) : commit.place = i ∧ commit.call = c := by
  unfold Sys.written at h
  split at h
  · split at h
    · rw [mem_singleton.mp h]
      exact ⟨rfl, rfl⟩
    · cases h
  · cases h

/-- The row stays as it is, or one `PATCH` replaces it. -/
def Moved (s s' : Sys) (i : ℕ) : Prop :=
  (s'.db.rows[i]? = s.db.rows[i]? ∧ s'.commitsOf i = s.commitsOf i) ∨
    ∃ before commit, s.db.rows[i]? = some before ∧ s'.db.rows[i]? = some commit.row ∧
      s'.commitsOf i = s.commitsOf i ++ [commit] ∧ Produced s before commit

/-- A commit replaces the row its own flush has written, if it has written one. -/
theorem Inv.moved_of_commit (hinv : Inv rows s) {place : ℕ}
    (hcall : s.calls[c]? = some ⟨request, some (place, loaded), .committing changed⟩)
    (hdb : s'.db = s.db.commit c) (hcommits : s'.commits = s.commits ++ s.written c place) (i : ℕ) :
    Moved s s' i := by
  have hrows : s'.db.rows[i]? = s.db.slots[i]?.map fun slot => (slot.settle c).committed := by
    rw [hdb, Db.rows_commit_getElem? (by simp [Db.insertsOf, hinv.inserts])]
  have hlog (h : ∀ commit ∈ s.written c place, commit.place ≠ i) :
      s'.commitsOf i = s.commitsOf i := by
    have hnone : (s.written c place).filter (·.place = i) = [] := by
      simpa using h
    rw [Sys.commitsOf, hcommits, filter_append, hnone, append_nil, Sys.commitsOf]
  cases hslot : s.db.slots[i]? with
  | none =>
    refine .inl ⟨by rw [hrows, Db.rows_getElem?, hslot]; rfl, hlog ?_⟩
    intro commit hmem hplace
    obtain ⟨rfl, -⟩ := of_mem_written hmem
    simp [Sys.written, hplace, hslot] at hmem
  | some slot =>
    obtain ⟨committed, pending⟩ := slot
    by_cases hown : ∃ row, pending = some (c, row)
    -- the lock is its own: the row is the one it loaded
    · obtain ⟨row, rfl⟩ := hown
      obtain ⟨user, changes, ifMatch, ifNoneMatch, changed', hcall', hpermits, hrow⟩ :=
        hinv.pending i committed row c hslot
      obtain ⟨rfl, hfound, -⟩ := Call.mk.inj (some.inj (hcall.symm.trans hcall'))
      obtain ⟨rfl, rfl⟩ := Prod.mk.inj (some.inj hfound)
      have hwritten : s.written c place = [⟨c, place, row⟩] := by simp [Sys.written, hslot]
      refine .inr ⟨loaded, ⟨c, place, row⟩, Db.rows_of_slot hslot, ?_, ?_, ?_⟩
      · rw [hrows, hslot, map_some, Slot.settle_self]
      · rw [Sys.commitsOf, hcommits, hwritten, filter_append, Sys.commitsOf]
        simp
      · exact ⟨user, changes, ifMatch, ifNoneMatch, _, hcall, hpermits, hrow⟩
    -- a row that is not locked, or is locked by another, stays
    · have hsettle : (⟨committed, pending⟩ : Slot User).settle c = ⟨committed, pending⟩ := by
        cases pending with
        | none => rfl
        | some w =>
          apply Slot.settle_of_pending
          rintro rfl
          exact hown ⟨w.2, rfl⟩
      refine .inl ⟨by rw [hrows, Db.rows_getElem?, hslot, map_some, hsettle]; rfl, hlog ?_⟩
      intro commit hmem hplace
      obtain ⟨rfl, -⟩ := of_mem_written hmem
      rw [Sys.written, hplace, hslot] at hmem
      cases pending with
      | none => simp at hmem
      | some w =>
        have hne : w.1 ≠ c := fun h => hown ⟨w.2, by rw [← h]⟩
        simp [hne] at hmem

theorem Inv.moved (hinv : Inv rows s) (h : Effect s s') (i : ℕ) : Moved s s' i := by
  cases h
  case request heq | load heq | keep heq | allow heq => exact .inl (by subst heq; exact ⟨rfl, rfl⟩)
  case write c request j loaded changed slot row hcall hslot hcurrent hversion heq =>
    subst heq
    refine .inl ⟨?_, rfl⟩
    have hupdate : s.db.update c j (setChanged loaded changed) = some { s.db with
        slots := s.db.slots.set j ⟨slot.committed, some (c, setChanged loaded changed row)⟩ } := by
      simp [Db.update, hslot, hcurrent]
    show (Db.rows _)[i]? = _
    rw [← Db.rows_update hupdate]
    rfl
  case commit c request j loaded changed hcall heq =>
    exact hinv.moved_of_commit hcall (by rw [heq]) (by rw [heq]) i
  case fail c call response hcall hphase heq =>
    subst heq
    exact .inl ⟨by rw [Sys.fail, Db.rows_rollback], rfl⟩

omit [Unicode] in
theorem Behind.trans {a b c : User} (h : Behind a b) (h' : Behind b c) : Behind a c := by
  rcases h with rfl | h
  · exact h'
  rcases h' with rfl | h'
  · exact .inr h
  · exact .inr (h.trans h')

theorem Moved.behind (h : Moved s s' i) (hrow : s.db.rows[i]? = some row) :
    ∃ row', s'.db.rows[i]? = some row' ∧ Behind row row' := by
  rcases h with ⟨hrows, -⟩ | ⟨before, commit, hbefore, hafter, -, hproduced⟩
  · exact ⟨row, hrows.trans hrow, .inl rfl⟩
  cases hrow.symm.trans hbefore
  obtain ⟨user, changes, ifMatch, ifNoneMatch, phase, -, -, hmade⟩ := hproduced
  exact ⟨commit.row, hafter, .inr (by rw [hmade]; exact Nat.lt_succ_self _)⟩

theorem Moved.history (h : Moved s s' i) (hkept : Remembers s s') {current : User}
    (hrow : s.db.rows[i]? = some current) (hhist : History s first (s.commitsOf i) current) :
    ∃ current', s'.db.rows[i]? = some current' ∧ History s' first (s'.commitsOf i) current' := by
  rcases h with ⟨hrows, hlog⟩ | ⟨before, commit, hbefore, hafter, hlog, hproduced⟩
  · exact ⟨current, hrows.trans hrow, hlog ▸ hhist.remembers hkept⟩
  cases hrow.symm.trans hbefore
  refine ⟨commit.row, hafter, ?_⟩
  rw [hlog]
  exact .snoc (hhist.remembers hkept) (hproduced.remembers hkept)

/-! ## The invariant is kept -/

theorem Effect.loaded_cases (h : Effect s s') {phase : Phase}
    (hcall : s'.calls[c]? = some ⟨request, some (i, row), phase⟩) :
    (∃ phase', s.calls[c]? = some ⟨request, some (i, row), phase'⟩) ∨
      s.db.rows[i]? = some row := by
  have hset {d : ℕ} {call : Call} {phase₁ : Phase} (hd : s.calls[d]? = some call)
      (h : (s.calls.set d { call with phase := phase₁ })[c]? =
        some ⟨request, some (i, row), phase⟩) :
      ∃ phase', s.calls[c]? = some ⟨request, some (i, row), phase'⟩ := by
    rcases getElem?_set_cases h with ⟨rfl, hcall⟩ | ⟨-, hcall⟩
    · obtain ⟨rfl, hloaded, -⟩ := Call.mk.inj hcall
      exact ⟨call.phase, by rw [hd, hloaded]⟩
    · exact ⟨phase, hcall⟩
  cases h <;> rename_i heq <;> subst heq
  case request request' =>
    rcases getElem?_append_cases hcall with ⟨-, hnew⟩ | ⟨-, hold⟩
    · cases hnew
    · exact .inl ⟨phase, hold⟩
  case load d request' j row' hd hrow =>
    rcases getElem?_set_cases hcall with ⟨-, hnew⟩ | ⟨-, hold⟩
    · obtain ⟨-, hloaded, -⟩ := Call.mk.inj hnew
      obtain ⟨rfl, rfl⟩ := Prod.mk.inj (some.inj hloaded)
      exact .inr hrow
    · exact .inl ⟨phase, hold⟩
  case allow hd _ | keep hd | write hd _ _ _ | commit hd | fail hd _ =>
    exact .inl (hset hd hcall)

theorem Inv.inserts_effect (hinv : Inv rows s) (h : Effect s s') : s'.db.inserts = [] := by
  cases h <;> rename_i heq <;> subst heq
  case request | load | allow | keep | write =>
    exact hinv.inserts
  case commit => simp [Db.commit, hinv.inserts]
  case fail => simp [Sys.fail, Db.rollback, hinv.inserts]

/-- Only the precondition lets a request write. -/
theorem Inv.writing_effect (hinv : Inv rows s) (h : Effect s s')
    (hcall : s'.calls[c]? = some ⟨request, some (i, loaded), .writing changed⟩) :
    ∃ user changes ifMatch ifNoneMatch, request = .patch user changes ifMatch ifNoneMatch ∧
      Permits ifMatch loaded ∧ changed = changes.apply loaded := by
  have hset {d : ℕ} {call : Call} (hphase : ∀ changed, call.phase ≠ .writing changed)
      (h : (s.calls.set d call)[c]? = some ⟨request, some (i, loaded), .writing changed⟩) :
      s.calls[c]? = some ⟨request, some (i, loaded), .writing changed⟩ := by
    rcases getElem?_set_cases h with ⟨-, hnew⟩ | ⟨-, hold⟩
    · rw [← hnew] at hphase
      exact absurd rfl (hphase changed)
    · exact hold
  cases h <;> rename_i heq <;> subst heq
  case request =>
    rcases getElem?_append_cases hcall with ⟨-, hnew⟩ | ⟨-, hold⟩
    · cases hnew
    · exact hinv.writing c _ _ _ _ hold
  case load | keep | write | commit | fail =>
    exact hinv.writing c _ _ _ _ (hset (by simp) hcall)
  case allow d user changes ifMatch ifNoneMatch j loaded' changed' hd hok =>
    rcases getElem?_set_cases hcall with ⟨-, hnew⟩ | ⟨-, hold⟩
    · obtain ⟨rfl, hfound, hphase⟩ := Call.mk.inj hnew
      obtain ⟨rfl, rfl⟩ := Prod.mk.inj (some.inj hfound)
      obtain rfl := Phase.writing.inj hphase
      exact ⟨user, changes, ifMatch, ifNoneMatch, rfl, permits_of_ok hok⟩
    · exact hinv.writing c _ _ _ _ hold

/-- The `UPDATE` finds the version it names only where the row is the one that was loaded. -/
theorem Inv.loaded_eq_committed (hinv : Inv rows s) {slot : Slot User}
    (hcall : s.calls[c]? = some ⟨request, some (i, loaded), .writing changed⟩)
    (hslot : s.db.slots[i]? = some slot) (hcurrent : slot.current c = some row)
    (hversion : row.version = loaded.version) : slot.committed = loaded ∧ row = loaded := by
  obtain ⟨committed, pending⟩ := slot
  have hrow : row = committed := by
    cases pending with
    | none => exact (some.inj hcurrent).symm
    | some w =>
      obtain ⟨t, version⟩ := w
      by_cases ht : t = c
      · -- the request would have flushed before
        subst ht
        obtain ⟨_, _, _, _, _, hcall', -⟩ := hinv.pending i committed version t hslot
        cases hcall.symm.trans hcall'
      · simp [Slot.current, ht] at hcurrent
  subst hrow
  obtain ⟨current, hcurrent', hbehind⟩ := hinv.loaded c request i loaded _ hcall
  cases (Db.rows_of_slot hslot).symm.trans hcurrent'
  rcases hbehind with rfl | hlt
  · exact ⟨rfl, rfl⟩
  · exact absurd hversion (Nat.ne_of_gt hlt)

omit [Unicode] in
theorem setChanged_self (changes : ProfileUpdateRequest) (loaded : User) :
    setChanged loaded (changes.apply loaded) loaded = patched changes loaded := by
  unfold setChanged patched ProfileUpdateRequest.apply
  congr 1 <;> split <;> simp_all

section

variable (hinv : Inv rows s) (h : Effect s s')

include hinv h

/-- A lock is taken by the flush, and given up with the session. -/
theorem Inv.pending_effect {committed : User}
    (hslot : s'.db.slots[i]? = some ⟨committed, some (c, row)⟩) :
    ∃ user changes ifMatch ifNoneMatch changed,
      s'.calls[c]? = some ⟨.patch user changes ifMatch ifNoneMatch, some (i, committed),
        .committing changed⟩ ∧
      Permits ifMatch committed ∧ row = patched changes committed := by
  -- the locks that were there are still their holders', unless the holder has moved on
  have hheld {d : ℕ} {call call' : Call} (hd : s.calls[d]? = some call)
      (hother : d = c → ∀ changed, call.phase ≠ .committing changed)
      (hcalls : s'.calls = s.calls.set d call')
      (hold : s.db.slots[i]? = some ⟨committed, some (c, row)⟩) : s'.calls[c]? = s.calls[c]? := by
    obtain ⟨_, _, _, _, changed, hcall, -⟩ := hinv.pending i committed row c hold
    have hdc : d ≠ c := by
      rintro rfl
      cases hd.symm.trans hcall
      exact hother rfl changed rfl
    rw [hcalls, getElem?_set_ne hdc]
  cases h <;> rename_i heq <;> subst heq
  case request request =>
    obtain ⟨user, changes, ifMatch, ifNoneMatch, changed, hcall, hrest⟩ :=
      hinv.pending i committed row c hslot
    exact ⟨user, changes, ifMatch, ifNoneMatch, changed, getElem?_append_of hcall, hrest⟩
  case load hd _ | allow hd _ | keep hd =>
    rw [hheld hd (by simp) rfl hslot]
    exact hinv.pending i committed row c hslot
  case write d request j loaded changed slot row' hd hslot' hcurrent hversion =>
    obtain ⟨hcommitted, rfl⟩ := hinv.loaded_eq_committed hd hslot' hcurrent hversion
    obtain ⟨user, changes, ifMatch, ifNoneMatch, rfl, hpermits, rfl⟩ := hinv.writing d _ _ _ _ hd
    rcases getElem?_set_cases hslot with ⟨rfl, hnew⟩ | ⟨-, hold⟩
    · rw [hcommitted, setChanged_self] at hnew
      obtain ⟨rfl, hpending⟩ := Slot.mk.inj hnew
      obtain ⟨rfl, rfl⟩ := Prod.mk.inj (some.inj hpending)
      refine ⟨user, changes, ifMatch, ifNoneMatch, patched changes committed, ?_, hpermits, rfl⟩
      exact getElem?_set_at hd
    · rw [hheld hd (by simp) rfl hold]
      exact hinv.pending i committed row c hold
  case commit d request j loaded changed hd =>
    obtain ⟨hold, hdc⟩ := Db.slots_of_commit hslot
    rw [hheld hd (fun h => absurd h.symm hdc) rfl hold]
    exact hinv.pending i committed row c hold
  case fail d call response hd hphase =>
    obtain ⟨hold, hdc⟩ := Db.slots_of_rollback hslot
    rw [hheld hd (fun h => absurd h.symm hdc) rfl hold]
    exact hinv.pending i committed row c hold

/-- What is logged has been answered, and is logged once. -/
theorem Inv.logged_effect :
    (∀ commit ∈ s'.commits, ∃ request loaded response,
      s'.calls[commit.call]? = some ⟨request, loaded, .done response⟩) ∧
    (s'.commits.map (·.call)).Nodup := by
  have hset {d : ℕ} {call call' : Call} (hd : s.calls[d]? = some call)
      (hphase : ∀ response, call.phase ≠ .done response) :
      ∀ commit ∈ s.commits, ∃ request loaded response,
        (s.calls.set d call')[commit.call]? = some ⟨request, loaded, .done response⟩ := by
    intro commit hmem
    obtain ⟨request, loaded, response, hcall⟩ := hinv.logged commit hmem
    refine ⟨request, loaded, response, getElem?_set_of_ne hd hcall ?_⟩
    rintro rfl
    exact hphase response rfl
  cases h <;> rename_i heq <;> subst heq
  case request request =>
    refine ⟨?_, hinv.distinct⟩
    intro commit hmem
    obtain ⟨request', loaded, response, hcall⟩ := hinv.logged commit hmem
    exact ⟨request', loaded, response, getElem?_append_of hcall⟩
  case load hd _ | allow hd _ | keep hd | write hd _ _ _ =>
    exact ⟨hset hd (by simp), hinv.distinct⟩
  case fail d call response hd hphase =>
    exact ⟨hset hd hphase, hinv.distinct⟩
  case commit d request j loaded changed hd =>
    constructor
    · intro commit hmem
      rcases mem_append.mp hmem with hmem | hmem
      · exact hset hd (by simp) commit hmem
      · obtain ⟨-, rfl⟩ := of_mem_written hmem
        exact ⟨_, _, _, getElem?_set_at hd⟩
    · have hnew : ((s.written d j).map (·.call)).Nodup := by
        unfold Sys.written
        split
        · split <;> simp
        · simp
      rw [map_append]
      refine nodup_append.mpr ⟨hinv.distinct, hnew, ?_⟩
      -- a call that is in the log has been answered, and this one was about to commit
      intro c hc c' hc' heq
      obtain ⟨commit, hmem, rfl⟩ := mem_map.mp hc
      obtain ⟨commit', hmem', rfl⟩ := mem_map.mp hc'
      obtain ⟨request', loaded', response, hdone⟩ := hinv.logged commit hmem
      rw [heq, (of_mem_written hmem').2, hd] at hdone
      cases hdone

theorem Inv.effect : Inv rows s' where
  inserts := hinv.inserts_effect h
  history := by
    intro i first hfirst
    obtain ⟨current, hrow, hhist⟩ := hinv.history i first hfirst
    exact (hinv.moved h i).history (.of_effect h) hrow hhist
  loaded := by
    intro c request i loaded phase hcall
    rcases h.loaded_cases hcall with ⟨phase', hcall'⟩ | hrow
    · obtain ⟨current, hrow, hbehind⟩ := hinv.loaded c request i loaded phase' hcall'
      obtain ⟨current', hrow', hbehind'⟩ := (hinv.moved h i).behind hrow
      exact ⟨current', hrow', hbehind.trans hbehind'⟩
    · exact (hinv.moved h i).behind hrow
  writing := fun _ _ _ _ _ hcall => hinv.writing_effect h hcall
  pending := fun _ _ _ _ hslot => hinv.pending_effect h hslot
  logged := (hinv.logged_effect h).1
  distinct := (hinv.logged_effect h).2

end

/-- The table before the first request. -/
def Sys.start (rows : List User) : Sys := { db := Db.quiet rows }

theorem Inv.start (rows : List User) : Inv rows (Sys.start rows) where
  inserts := rfl
  history := by
    intro i first hfirst
    exact ⟨first, by rw [Sys.start, Db.rows_quiet, hfirst], .nil⟩
  loaded := by simp [Sys.start]
  writing := by simp [Sys.start]
  pending := by simp [Sys.start, Db.quiet]
  logged := by simp [Sys.start]
  distinct := by simp [Sys.start]

theorem Inv.of_run (h : Run (fun s : Sys => s.step) Always (Sys.start rows) s) : Inv rows s :=
  h.invariant (fun hinv _ hstep => hinv.effect (effect_of_step hstep)) (.start rows)

/-! ## No lost update -/

theorem Produced.version (h : Produced s before commit) :
    commit.row.version = before.version + 1 := by
  obtain ⟨user, changes, ifMatch, ifNoneMatch, phase, -, -, hrow⟩ := h
  rw [hrow]
  rfl

theorem History.first_le (h : History s first commits last) : first.version ≤ last.version := by
  induction h with
  | nil => exact le_refl _
  | snoc _ next ih =>
    rw [next.version]
    exact Nat.le_succ_of_le ih

/-- A history goes through every version once. -/
theorem History.countP (h : History s first commits last) (n : ℕ) :
    commits.countP (·.row.version = n + 1) =
      if first.version ≤ n ∧ n < last.version then 1 else 0 := by
  induction h with
  | nil => simp
  | @snoc commits last commit init next ih =>
    rw [countP_append, ih, countP_singleton, next.version]
    have hle := init.first_le
    by_cases hn : n = last.version
    · subst hn
      simp [hle]
    · have hlt : n < last.version + 1 ↔ n < last.version := by omega
      simp [hlt, Ne.symm hn]

/-- **No profile update is lost.** However `GET`s and `PATCH`es interleave, every row has come to
    be what it is through a chain of commits, one for each version: each by a `PATCH` that had
    loaded the version before, under `*` or a strong tag of that version. No `PATCH` commits twice,
    and a tag sent back as it was received matches the version it was handed out for, of the user
    it was handed out for, and nothing else. -/
theorem no_lost_update (rows : List User)
    (hrun : Run (fun s : Sys => s.step) Always (Sys.start rows) s) :
    (∀ (i : ℕ) (first : User), rows[i]? = some first →
      ∃ current, s.db.rows[i]? = some current ∧ History s first (s.commitsOf i) current ∧
        ∀ n, first.version ≤ n → n < current.version →
          (s.commitsOf i).countP (·.row.version = n + 1) = 1) ∧
    (s.commits.map (·.call)).Nodup ∧
    ∀ a b : User, ∃ precondition,
      IfMatch.parse (some (profileEtag a).serialize) = .ok precondition ∧
      (IfMatch.matchesTag precondition (profileEtag b) = true ↔
        a.id = b.id ∧ a.version = b.version) := by
  have hinv := Inv.of_run hrun
  refine ⟨?_, hinv.distinct, ?_⟩
  · intro i first hfirst
    obtain ⟨current, hrow, hhist⟩ := hinv.history i first hfirst
    refine ⟨current, hrow, hhist, ?_⟩
    intro n hfrom hto
    rw [hhist.countP, if_pos ⟨hfrom, hto⟩]
  · intro a b
    refine ⟨_, IfMatch.parse_serialize (profileEtag a), ?_⟩
    rw [IfMatch.matchesTag_iff rfl]
    simpa [profileEtag] using ⟨fun h => resourceVersionTag_value_inj.mp h.2,
      fun h => ⟨rfl, resourceVersionTag_value_inj.mpr h⟩⟩

end

/-- Two `PATCH`es that were handed the same tag: both preconditions pass, and the `UPDATE` of the
    second finds no row. -/
theorem no_lost_update_race :
    letI : Unicode := .ascii
    let row : User :=
      { id := 7, email := lit "a@b", role := lit "user", isActive := true, isVerified := true
        notificationChannel := lit "email", notificationWebhookUrl := none, version := 1 }
    ∃ s, Run (fun s : Sys => s.step) Always (Sys.start [row]) s ∧
      (s.commits.map (·.call) = [0] ∧ s.commits.map (·.row.version) = [2] ∧
        (s.calls.map (·.phase))[1]? = some (.done (.refused modifiedMeanwhile))) ∧
      ∃ current, s.db.rows[0]? = some current ∧ History s row (s.commitsOf 0) current ∧
        ∀ n, row.version ≤ n → n < current.version →
          (s.commitsOf 0).countP (·.row.version = n + 1) = 1 := by
  intro row
  let : Unicode := .ascii
  refine Run.exists_of_replay_and
    [.request (.patch 7 { notificationChannel := some (lit "none") }
      [(profileEtag row).serialize] []),
      .request (.patch 7 { notificationChannel := some (lit "webhook") }
        [(profileEtag row).serialize] []),
      .load 0, .load 1, .handle 0, .handle 1, .flush 0, .commit 0, .flush 1]
    (by decide +kernel) fun hrun _ => ?_
  exact (no_lost_update [row] hrun).1 0 row rfl

end Users
