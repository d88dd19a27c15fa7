import FastapiBoilerplate.Outbox.Relay

/-!
# The outbox delivers what was committed, at least once

Three statements about every interleaving of requests and relays: nothing is dispatched before the
transaction that staged it has committed, no row is in the hands of two relays, and a row goes only
with a commit of a relay for which the dispatcher had returned without a failed subscriber.

The invariant follows a row through the table. What is committed was staged by a transaction that
committed (`rows`); what waits to be committed is the same event rescheduled, or the deletion of
one that was delivered (`pending`); and a relay that is still open has the lock of every row it
claimed (`held`).
-/

namespace Outbox

open Lib Lib.ReadCommitted List Option Db

variable {φ π : Type} {cfg : RelayConfig} {codec : Codec φ π} {s s' : Sys φ π}

/-! ## What a row is about -/

/-- A transaction that staged it has committed. -/
def Owed (history : List (Happened π)) (identity : Identity π) : Prop :=
  ∃ p rows row, .committed p rows ∈ history ∧ row ∈ rows ∧ row.identity = identity

/-- The dispatcher has returned to `r` for the row, with no failed subscriber. -/
def Delivered (history : List (Happened π)) (r i : ℕ) : Prop :=
  ∃ result, .returned r i result ∈ history ∧ result.failures = []

variable {news : List (Happened π)} {i r : ℕ} {a : Action φ} {now : Instant}
  {entry : PendingEvent π} {db : Table π}

variable {identity : Identity π} {t : ℕ} {draw : ℚ} {outcome : Except Raised Unit} {db' : Table π}
  {session : Session φ π}

theorem Owed.append {history : List (Happened π)} (h : Owed history identity) :
    Owed (history ++ news) identity := by
  obtain ⟨p, rows, row, hmem, hrow⟩ := h
  exact ⟨p, rows, row, mem_append_left _ hmem, hrow⟩

theorem Delivered.append {history : List (Happened π)} (h : Delivered history r i) :
    Delivered (history ++ news) r i := by
  obtain ⟨result, hmem, hok⟩ := h
  exact ⟨result, mem_append_left _ hmem, hok⟩

def Phase.isOpen : Phase φ π → Bool
  | .committed => false
  | .rolledBack => false
  | _ => true

/-- An open transaction has claimed the row. -/
def Sys.Holds (s : Sys φ π) (r i : ℕ) : Prop :=
  ∃ session, s.sessions[r]? = some session ∧ session.phase.isOpen = true ∧ i ∈ session.places

/-! ## What a step does -/

inductive Effect (cfg : RelayConfig) (codec : Codec φ π) (s s' : Sys φ π) : Action φ → Prop
  | opened (a : Action φ) (session : Session φ π) (hplaces : session.places = [])
      (hphase : session.phase = .producing ∨ session.phase = .claiming)
      (heq : s' = { s with sessions := s.sessions ++ [session] }) : Effect cfg codec s s' a
  | refused (a : Action φ) (heq : s' = s) : Effect cfg codec s s' a
  | staged (a : Action φ) (p : ℕ) (session : Session φ π) (row : OutboxEvent π) (db : Table π)
      (clash : Option (OutboxEvent π) → Bool) (hsession : s.sessions[p]? = some session)
      (hphase : session.phase = .producing) (hinsert : s.db.insert p clash (some row) = some db)
      (heq : s' = { s with db }) : Effect cfg codec s s' a
  | claimed (a : Action φ) (r : ℕ) (session : Session φ π)
      (hsession : s.sessions[r]? = some session) (hphase : session.phase = .claiming)
      (heq : s' = s.goto (s.db.lock r ((batch cfg.batchSize session.now s.db).map (·.1))) r
        ⟨session.now, (batch cfg.batchSize session.now s.db).map (·.1), session.phase⟩
        (.handling ((batch cfg.batchSize session.now s.db).map fun w => (w.1, asPending w.2))) []) :
      Effect cfg codec s s' a
  | dispatched (a : Action φ) (r i : ℕ) (now : Instant) (places : List ℕ) (entry : PendingEvent π)
      (todo : List (ℕ × PendingEvent π)) (phase : Phase φ π) (news : List (Happened π))
      (hsession : s.sessions[r]? = some ⟨now, places, .handling ((i, entry) :: todo)⟩)
      (hphase : (∃ exc, phase = .recording i entry (.error exc) todo ∧ news = []) ∨
        ∃ event, phase = .dispatching i entry event todo ∧ news = [.dispatched r i entry])
      (heq : s' = s.goto s.db r ⟨now, places, .handling ((i, entry) :: todo)⟩ phase news) :
      Effect cfg codec s s' a
  | concluded (a : Action φ) (r i : ℕ) (now : Instant) (places : List ℕ) (entry : PendingEvent π)
      (event : DomainEvent φ) (todo : List (ℕ × PendingEvent π)) (outcome : Except Raised Unit)
      (news : List (Happened π))
      (hsession : s.sessions[r]? = some ⟨now, places, .dispatching i entry event todo⟩)
      (houtcome : outcome = .ok () → Delivered news r i)
      (hnews : ∀ r i entry, .dispatched r i entry ∉ news)
      (heq : s' = s.goto s.db r ⟨now, places, .dispatching i entry event todo⟩
        (.recording i entry outcome todo) news) : Effect cfg codec s s' a
  | recorded (a : Action φ) (r i : ℕ) (now : Instant) (places : List ℕ) (entry : PendingEvent π)
      (outcome : Except Raised Unit) (todo : List (ℕ × PendingEvent π)) (draw : ℚ) (db : Table π)
      (hsession : s.sessions[r]? = some ⟨now, places, .recording i entry outcome todo⟩)
      (hrecord : record cfg now r draw i entry outcome s.db = some (.ok db))
      (heq : s' = s.goto db r ⟨now, places, .recording i entry outcome todo⟩ (.handling todo) []) :
      Effect cfg codec s s' a
  | committed (c : ℕ) (session : Session φ π) (news : List (Happened π))
      (hsession : s.sessions[c]? = some session) (hopen : session.phase.isOpen = true)
      (hnews : news = [.committed c (s.stagedBy c)] ∨
        (news = [] ∧ ∃ todo, session.phase = .handling todo))
      (heq : s' = s.goto (s.db.commit c) c session .committed news) :
      Effect cfg codec s s' (.commit c)
  | rolledBack (a : Action φ) (c : ℕ) (session : Session φ π)
      (hsession : s.sessions[c]? = some session) (heq : s' = s.rollback c session) :
      Effect cfg codec s s' a

theorem delivered_of_concluded {event : DomainEvent φ} {ending : Ending}
    (h : concluded event ending = .ok ()) :
    Delivered (reported r i event ending : List (Happened π)) r i := by
  cases ending with
  | returned =>
    exact ⟨_, mem_singleton_self _, raiseForFailures_eq_ok.mp h⟩
  | raised => cases h
  | timedOut => cases h

theorem effect_of_step (h : s.step cfg codec a = some s') : Effect cfg codec s s' a := by
  cases a with simp only [Sys.step] at h
  | request => exact .opened _ _ rfl (.inl rfl) (some.inj h).symm
  | publish p =>
    split at h <;> [skip; cases h]
    rename_i hsession
    split at h
    · exact .refused _ (some.inj h).symm
    · next row _ =>
      obtain ⟨db, hinsert, rfl⟩ := map_eq_some_iff.mp h
      exact .staged _ p _ row db _ hsession rfl hinsert rfl
  | tick => exact .opened _ _ rfl (.inr rfl) (some.inj h).symm
  | claim r =>
    simp only [claim] at h
    split at h <;> cases h
    refine .claimed _ r _ ‹_› rfl ?_
    simp [Sys.goto, Function.comp_def]
  | dispatch r =>
    split at h <;> [skip; cases h]
    rename_i hsession
    split at h <;> cases h
    · exact .dispatched _ r _ _ _ _ _ _ _ hsession (.inl ⟨_, rfl, rfl⟩) rfl
    · exact .dispatched _ r _ _ _ _ _ _ _ hsession (.inr ⟨_, rfl, rfl⟩) rfl
  | conclude r ending =>
    split at h <;> cases h
    refine .concluded _ r _ _ _ _ _ _ _ _ ‹_› delivered_of_concluded ?_ rfl
    cases ending <;> simp [reported]
  | record r draw =>
    split at h <;> [skip; cases h]
    rename_i hsession
    split at h <;> cases h
    · exact .rolledBack _ r _ hsession rfl
    · exact .recorded _ r _ _ _ _ _ _ draw _ hsession ‹_› rfl
  | commit c =>
    split at h <;> cases h
    · exact .committed c _ _ ‹_› rfl (.inl rfl) rfl
    · exact .committed c _ _ ‹_› rfl (.inr ⟨rfl, [], rfl⟩) rfl
  | abort c =>
    split at h <;> cases h
    exact .rolledBack _ c _ ‹_› rfl

/-! ## The invariant -/

/-- The rows a relay has still to deal with. -/
def Phase.todo : Phase φ π → List (ℕ × PendingEvent π)
  | .handling todo => todo
  | .dispatching i entry _ todo => (i, entry) :: todo
  | .recording i entry _ todo => (i, entry) :: todo
  | _ => []

/-- What may wait to replace a row: the same event rescheduled, or nothing, if it was delivered. -/
def Justified (history : List (Happened π)) (r i : ℕ) (found : Option (OutboxEvent π)) :
    Option (OutboxEvent π) → Prop
  | some row' => ∃ row, found = some row ∧ row'.identity = row.identity
  | none => Delivered history r i

structure Inv (s : Sys φ π) : Prop where
  rows : ∀ (i : ℕ) (row : OutboxEvent π), s.db.rows[i]? = some (some row) →
    Owed s.history row.identity
  pending : ∀ (i : ℕ) (found : Option (OutboxEvent π)) (r : ℕ) (next : Option (OutboxEvent π)),
    s.db.slots[i]? = some ⟨found, some (r, next)⟩ → Justified s.history r i found next
  held : ∀ (r i : ℕ), s.Holds r i → ∃ found next, s.db.slots[i]? = some ⟨found, some (r, next)⟩
  todo : ∀ (r : ℕ) (session : Session φ π), s.sessions[r]? = some session →
    ∀ w ∈ session.phase.todo, Owed s.history w.2.identity
  outcome : ∀ (r i : ℕ) (now : Instant) (places : List ℕ) (entry : PendingEvent π)
    (todo : List (ℕ × PendingEvent π)),
    s.sessions[r]? = some ⟨now, places, .recording i entry (.ok ()) todo⟩ → Delivered s.history r i
  inserts : ∀ w ∈ s.db.inserts, ∃ session, s.sessions[w.1]? = some session ∧
    session.phase = .producing
  dispatched : ∀ pre r i entry post, s.history = pre ++ .dispatched r i entry :: post →
    Owed pre entry.identity

section

variable (h : record cfg now t draw i entry outcome db = some (.ok db'))

include h

theorem record_eq_ok :
    db' = db ∨ ∃ slot v next, db.slots[i]? = some slot ∧ slot.current t = some v ∧
      db' = { db with slots := db.slots.set i ⟨slot.committed, some (t, next)⟩ } ∧
      ((outcome = .ok () ∧ next = none) ∨
        ∃ row row', v = some row ∧ next = some row' ∧ row'.identity = row.identity) := by
  cases outcome with
  | ok =>
    obtain ⟨db₁, hupdate, h⟩ := map_eq_some_iff.mp h
    obtain rfl := Except.ok.inj h
    obtain ⟨slot, v, hslot, hcurrent, rfl⟩ := update_eq_some hupdate
    exact .inr ⟨slot, v, none, hslot, hcurrent, rfl, .inl ⟨rfl, rfl⟩⟩
  | error =>
    simp only [record, fail] at h
    split at h
    · split at h
      · cases h
      · exact .inl (Except.ok.inj (some.inj h)).symm
      · next row hrow =>
        split at h
        · cases h
        obtain ⟨db₁, hupdate, h⟩ := map_eq_some_iff.mp h
        obtain rfl := Except.ok.inj h
        obtain ⟨slot, v, hslot, hcurrent, rfl⟩ := update_eq_some hupdate
        rw [hslot, bind_some, hcurrent] at hrow
        cases hrow
        exact .inr ⟨slot, _, _, hslot, hcurrent, rfl, .inr ⟨row, _, rfl, rfl, rfl⟩⟩
    · cases h

theorem record_keeps : db'.rows = db.rows ∧ db'.inserts = db.inserts ∧ Db.KeepsLocks t db db' := by
  rcases record_eq_ok h with rfl | ⟨slot, v, next, hslot, hcurrent, rfl, -⟩
  · exact ⟨rfl, rfl, .of_slots_eq rfl⟩
  have hupdate : db.update t i (fun _ => next) =
      some { db with slots := db.slots.set i ⟨slot.committed, some (t, next)⟩ } := by
    simp [update, hslot, hcurrent]
  exact ⟨rows_update hupdate, rfl, .update hupdate⟩

end

/-! ## The invariant is kept -/

section

variable (h : Effect cfg codec s s' a)

include h

theorem Effect.history : ∃ news, s'.history = s.history ++ news := by
  cases h
  case opened heq | refused heq | staged heq =>
    exact ⟨[], by rw [heq, append_nil]⟩
  case claimed heq | dispatched heq | concluded heq | recorded heq | committed heq
    | rolledBack heq => exact ⟨_, by rw [heq]; rfl⟩

theorem Effect.owed (howed : Owed s.history identity) : Owed s'.history identity := by
  obtain ⟨news, hnews⟩ := h.history
  rw [hnews]
  exact howed.append

theorem Effect.delivered (hdelivered : Delivered s.history r i) : Delivered s'.history r i := by
  obtain ⟨news, hnews⟩ := h.history
  rw [hnews]
  exact hdelivered.append

end

/-- **What becomes of a committed row**: it stays, rescheduled at most, or it goes with a commit
    for which it was delivered. Where there was none, there is none or one that was just staged. -/
theorem Inv.row_effect (hinv : Inv s) (h : Effect cfg codec s s' a) (i : ℕ) :
    (∀ row, s.db.rows[i]? = some (some row) →
      (∃ row', s'.db.rows[i]? = some (some row') ∧ row'.identity = row.identity) ∨
        ∃ r, a = .commit r ∧ Delivered s.history r i) ∧
    (∀ row', s'.db.rows[i]? = some (some row') → Owed s'.history row'.identity) := by
  by_cases hrows : s'.db.rows = s.db.rows
  · rw [hrows]
    exact ⟨fun row hrow => .inl ⟨row, hrow, rfl⟩, fun row hrow => h.owed (hinv.rows i row hrow)⟩
  have hkeep := h
  cases h
  case opened heq | refused heq => exact absurd (by rw [heq]) hrows
  case staged hinsert heq => exact absurd (by rw [heq]; exact rows_insert hinsert) hrows
  case claimed heq => exact absurd (by rw [heq]; exact rows_lock) hrows
  case dispatched heq | concluded heq =>
    exact absurd (by rw [heq]; rfl) hrows
  case recorded hrecord heq =>
    exact absurd (by rw [heq]; exact (record_keeps hrecord).1) hrows
  case rolledBack heq => exact absurd (by rw [heq]; exact rows_rollback) hrows
  case committed c session news hsession hopen hnews heq =>
    have hdb : s'.db = s.db.commit c := by rw [heq]; rfl
    -- what a commit makes of a slot
    have hslot {slot : Slot (Option (OutboxEvent π))} (hslot : s.db.slots[i]? = some slot) :
        (slot.settle c = slot) ∨ ∃ found next, slot = ⟨found, some (c, next)⟩ ∧
          slot.settle c = ⟨next, none⟩ := by
      obtain ⟨found, _ | ⟨r, next⟩⟩ := slot
      · exact .inl rfl
      by_cases hr : r = c
      · subst hr
        exact .inr ⟨found, next, rfl, Slot.settle_self⟩
      · exact .inl (Slot.settle_of_pending hr)
    constructor
    · intro row hrow
      obtain ⟨slot, hat, hcommitted⟩ := slot_of_row hrow
      have hafter : s'.db.rows[i]? = some (slot.settle c).committed := by
        rw [hdb]
        exact rows_of_slot (slots_commit hat)
      rcases hslot hat with hsettle | ⟨found, next, rfl, hsettle⟩
      · exact .inl ⟨row, by rw [hafter, hsettle, hcommitted], rfl⟩
      have hpending := hinv.pending i found c next hat
      rw [hsettle] at hafter
      cases next with
      | none => exact .inr ⟨c, rfl, hpending⟩
      | some row' =>
        obtain ⟨row₀, hfound, hidentity⟩ := hpending
        obtain rfl : row = row₀ := by
          subst hfound
          exact (some.inj hcommitted).symm
        exact .inl ⟨row', hafter, hidentity⟩
    · intro row' hafter
      rw [hdb] at hafter
      obtain ⟨slot', hat', hcommitted⟩ := slot_of_row hafter
      rcases slots_commit_cases hat' with ⟨slot, hat, rfl⟩ | ⟨-, -, hinserted⟩
      · rcases hslot hat with hsettle | ⟨found, next, rfl, hsettle⟩
        · rw [hsettle] at hcommitted
          exact hkeep.owed (hinv.rows i row' (by rw [rows_of_slot hat, hcommitted]))
        · rw [hsettle] at hcommitted
          obtain rfl : next = some row' := hcommitted
          obtain ⟨row₀, rfl, hidentity⟩ := hinv.pending i found c _ hat
          rw [hidentity]
          exact hkeep.owed (hinv.rows i row₀ (rows_of_slot hat))
      · have hmem := mem_of_getElem? hinserted
        rw [hcommitted] at hmem
        rcases hnews with rfl | ⟨-, todo, hphase⟩
        · refine ⟨c, s.stagedBy c, row', ?_, mem_filterMap.mpr ⟨_, hmem, rfl⟩, rfl⟩
          rw [heq]
          exact mem_concat_self
        -- a relay stages nothing
        obtain ⟨w, hw, -⟩ := mem_map.mp hmem
        obtain ⟨hw, hc⟩ := mem_filter.mp hw
        obtain ⟨session', hsession', hproducing⟩ := hinv.inserts w hw
        rw [of_decide_eq_true hc, hsession] at hsession'
        cases hsession'
        rw [hproducing] at hphase
        cases hphase

theorem Sys.Holds.of_goto {c : ℕ} {phase : Phase φ π} (hsession : s.sessions[c]? = some session)
    (hopen : session.phase.isOpen = true) (h : (s.goto db c session phase news).Holds r i) :
    s.Holds r i ∧ (r = c → phase.isOpen = true) := by
  obtain ⟨found, hfound, hphase, hmem⟩ := h
  rcases getElem?_set_cases hfound with ⟨rfl, rfl⟩ | ⟨hne, hold⟩
  · exact ⟨⟨session, hsession, hopen, hmem⟩, fun _ => hphase⟩
  · exact ⟨⟨found, hold, hphase, hmem⟩, fun h => absurd h hne⟩

section

variable (hinv : Inv s) (h : Effect cfg codec s s' a)

include hinv h

theorem Inv.held_effect (hholds : s'.Holds r i) :
    ∃ found next, s'.db.slots[i]? = some ⟨found, some (r, next)⟩ := by
  -- a step of another transaction leaves the lock, and what it is held for
  have hkept {t : ℕ} (hlocks : Db.KeepsLocks t s.db s'.db) (hold : s.Holds r i) (hne : r ≠ t) :
      ∃ found next, s'.db.slots[i]? = some ⟨found, some (r, next)⟩ := by
    obtain ⟨found, next, hslot⟩ := hinv.held r i hold
    exact ⟨found, next, hlocks i found r next hne hslot⟩
  cases h <;> rename_i heq <;> subst heq
  case opened session hplaces _ =>
    obtain ⟨found, hfound, hphase, hmem⟩ := hholds
    rcases getElem?_append_cases hfound with ⟨-, rfl⟩ | ⟨-, hold⟩
    · rw [hplaces] at hmem
      cases hmem
    · exact hinv.held r i ⟨found, hold, hphase, hmem⟩
  case refused =>
    exact hinv.held r i hholds
  case staged hinsert =>
    rw [insert_eq_some hinsert]
    exact hinv.held r i hholds
  case claimed c session hsession hphase =>
    have hfree : ∀ j ∈ (batch cfg.batchSize session.now s.db).map (·.1),
        ∃ v, s.db.slots[j]? = some ⟨v, none⟩ := by
      intro j hj
      obtain ⟨w, hw, rfl⟩ := mem_map.mp hj
      exact ⟨_, mem_batch hw⟩
    obtain ⟨found, hfound, hopen, hmem⟩ := hholds
    rcases getElem?_set_cases hfound with ⟨rfl, rfl⟩ | ⟨hne, hold⟩
    · obtain ⟨v, hv⟩ := hfree i hmem
      refine ⟨v, v, ?_⟩
      show (lock _ _ _).slots[i]? = _
      rw [slots_lock, hv, map_some, if_pos hmem]
    · exact hkept (.lock hfree) ⟨found, hold, hopen, hmem⟩ hne
  case dispatched hsession _ | concluded hsession _ _ =>
    exact hinv.held r i (hholds.of_goto hsession rfl).1
  case recorded c j _ _ _ _ _ _ _ hsession hrecord =>
    have hold := (hholds.of_goto hsession rfl).1
    by_cases hrc : r = c
    · subst hrc
      obtain ⟨found, next, hslot⟩ := hinv.held r i hold
      show ∃ found next, (slots _)[i]? = _
      rcases record_eq_ok hrecord with rfl | ⟨slot, v, next', hslot', -, rfl, -⟩
      · exact ⟨found, next, hslot⟩
      by_cases hij : j = i
      · subst hij
        exact ⟨slot.committed, next',
          getElem?_set_at hslot'⟩
      · exact ⟨found, next, (getElem?_set_ne hij).trans hslot⟩
    · exact hkept (record_keeps hrecord).2.2 hold hrc
  case committed c session _ hsession hopen _ =>
    obtain ⟨hold, hclosed⟩ := hholds.of_goto hsession hopen
    exact hkept .commit hold fun hrc => by cases hclosed hrc
  case rolledBack c session hsession =>
    obtain ⟨found, hfound, hphase, hmem⟩ := hholds
    rcases getElem?_set_cases hfound with ⟨-, rfl⟩ | ⟨hne, hold⟩
    · cases hphase
    · exact hkept .rollback ⟨found, hold, hphase, hmem⟩ hne

theorem Inv.pending_effect {found next : Option (OutboxEvent π)}
    (hslot : s'.db.slots[i]? = some ⟨found, some (r, next)⟩) :
    Justified s'.history r i found next := by
  have hkept (hold : s.db.slots[i]? = some ⟨found, some (r, next)⟩) :
      Justified s'.history r i found next := by
    have hpending := hinv.pending i found r next hold
    cases next with
    | some => exact hpending
    | none => exact h.delivered hpending
  cases h <;> rename_i heq <;> subst heq
  case opened | refused | dispatched | concluded => exact hkept hslot
  case staged hinsert =>
    rw [insert_eq_some hinsert] at hslot
    exact hkept hslot
  case claimed c session _ _ =>
    rw [Sys.goto, slots_lock] at hslot
    obtain ⟨slot, hold, hlocked⟩ := map_eq_some_iff.mp hslot
    split at hlocked
    · next hmem =>
      obtain ⟨w, hw, rfl⟩ := mem_map.mp hmem
      rw [mem_batch hw] at hold
      cases hold
      cases hlocked
      exact ⟨w.2, rfl, rfl⟩
    · subst hlocked
      exact hkept hold
  case recorded c j now places entry outcome todo draw db hsession hrecord =>
    rcases record_eq_ok hrecord with rfl | ⟨slot, v, next', hslot', hcurrent, rfl, hwrites⟩
    · exact hkept hslot
    rcases getElem?_set_cases hslot with ⟨rfl, hnew⟩ | ⟨-, hold⟩
    · obtain ⟨rfl, hpair⟩ := Slot.mk.inj hnew
      obtain ⟨rfl, rfl⟩ := Prod.mk.inj (some.inj hpair)
      rcases hwrites with ⟨rfl, rfl⟩ | ⟨row, row', rfl, rfl, hidentity⟩
      · exact (hinv.outcome _ _ _ _ _ _ hsession).append
      -- the row that is rescheduled is the committed one, or an earlier reschedule of it
      obtain ⟨committed, _ | ⟨t, version⟩⟩ := slot
      · cases hcurrent
        exact ⟨row, rfl, hidentity⟩
      by_cases ht : t = r
      · subst ht
        obtain rfl : version = some row := by simpa [Slot.current] using hcurrent
        obtain ⟨row₀, rfl, hidentity₀⟩ := hinv.pending _ _ _ _ hslot'
        exact ⟨row₀, rfl, hidentity.trans hidentity₀⟩
      · simp [Slot.current, ht] at hcurrent
    · exact hkept hold
  case committed c _ _ _ _ _ =>
    exact hkept (slots_of_commit hslot).1
  case rolledBack c _ _ =>
    exact hkept (slots_of_rollback hslot).1

/-- Where a relay has got to: what it has still to deal with is owed, and what it is about to
    record as delivered was. -/
theorem Inv.session_effect (hsession : s'.sessions[r]? = some session) :
    (∀ w ∈ session.phase.todo, Owed s'.history w.2.identity) ∧
      ∀ i entry todo, session.phase = .recording i entry (.ok ()) todo →
        Delivered s'.history r i := by
  have howed {c : ℕ} {old : Session φ π} (hold : s.sessions[c]? = some old) :
      ∀ w ∈ old.phase.todo, Owed s'.history w.2.identity :=
    fun w hw => h.owed (hinv.todo c old hold w hw)
  by_cases hkept : s.sessions[r]? = some session
  · refine ⟨howed hkept, fun i entry todo hphase => h.delivered (hinv.outcome r i session.now
      session.places entry todo ?_)⟩
    rw [hkept, ← hphase]
  -- otherwise it is the session that stepped
  have hstepped {c : ℕ} {new : Session φ π} (hset : (s.sessions.set c new)[r]? = some session) :
      r = c ∧ session = new :=
    (getElem?_set_cases hset).resolve_right fun hold => hkept hold.2
  cases h <;> rename_i heq <;> subst heq
  case opened new _ hphase =>
    rcases getElem?_append_cases hsession with ⟨-, rfl⟩ | ⟨-, hold⟩
    · rcases hphase with hphase | hphase <;> simp [hphase, Phase.todo]
    · exact absurd hold hkept
  case refused | staged => exact absurd hsession hkept
  case claimed c old _ _ =>
    obtain ⟨-, rfl⟩ := hstepped hsession
    refine ⟨fun w hw => ?_, nofun⟩
    obtain ⟨⟨i, row⟩, hrow, rfl⟩ := mem_map.mp hw
    exact (hinv.rows i row (rows_of_slot (mem_batch hrow))).append
  case dispatched hcall hphase =>
    obtain ⟨-, rfl⟩ := hstepped hsession
    rcases hphase with ⟨exc, rfl, -⟩ | ⟨event, rfl, -⟩ <;>
      exact ⟨fun w => howed hcall w, nofun⟩
  case concluded hcall houtcome _ =>
    obtain ⟨rfl, rfl⟩ := hstepped hsession
    refine ⟨fun w => howed hcall w, fun i entry todo hphase => ?_⟩
    cases hphase
    obtain ⟨result, hmem, hok⟩ := houtcome rfl
    exact ⟨result, mem_append_right _ hmem, hok⟩
  case recorded hcall _ =>
    obtain ⟨-, rfl⟩ := hstepped hsession
    exact ⟨fun w hw => howed hcall w (mem_cons_of_mem _ hw), nofun⟩
  case committed | rolledBack =>
    obtain ⟨-, rfl⟩ := hstepped hsession
    exact ⟨nofun, nofun⟩

theorem Inv.inserts_effect :
    ∀ w ∈ s'.db.inserts, ∃ session, s'.sessions[w.1]? = some session ∧
      session.phase = .producing := by
  -- a transaction that goes on as something else was not staging
  have hset {c : ℕ} {old new : Session φ π} (hold : s.sessions[c]? = some old)
      (hphase : old.phase ≠ .producing) {w : ℕ × Option (OutboxEvent π)} (hw : w ∈ s.db.inserts) :
      ∃ session, (s.sessions.set c new)[w.1]? = some session ∧ session.phase = .producing := by
    obtain ⟨session, hsession, hproducing⟩ := hinv.inserts w hw
    refine ⟨session, getElem?_set_of_ne hold hsession ?_, hproducing⟩
    rintro rfl
    exact hphase hproducing
  have hended {c : ℕ} {new : Session φ π} {w : ℕ × Option (OutboxEvent π)}
      (hw : w ∈ s.db.inserts.filter (·.1 ≠ c)) :
      ∃ session, (s.sessions.set c new)[w.1]? = some session ∧ session.phase = .producing := by
    obtain ⟨hw, hne⟩ := mem_filter.mp hw
    obtain ⟨session, hsession, hproducing⟩ := hinv.inserts w hw
    exact ⟨session, (getElem?_set_ne (Ne.symm (of_decide_eq_true hne))).trans hsession,
      hproducing⟩
  intro w hw
  cases h <;> rename_i heq <;> subst heq
  case opened =>
    obtain ⟨session, hsession, hproducing⟩ := hinv.inserts w hw
    exact ⟨session, getElem?_append_of hsession, hproducing⟩
  case refused => exact hinv.inserts w hw
  case staged session _ _ _ hsession hphase hinsert =>
    rw [insert_eq_some hinsert] at hw
    exact forall_mem_snoc hinv.inserts ⟨session, hsession, hphase⟩ w hw
  case claimed hsession hphase =>
    exact hset hsession (by simp [hphase]) hw
  case dispatched hsession _ | concluded hsession _ _ =>
    exact hset hsession (by simp) hw
  case recorded hsession hrecord =>
    exact hset hsession (by simp) ((record_keeps hrecord).2.1 ▸ hw)
  case committed | rolledBack => exact hended hw

theorem Inv.dispatched_effect {pre post : List (Happened π)}
    (hsplit : s'.history = pre ++ .dispatched r i entry :: post) : Owed pre entry.identity := by
  have hnews {news : List (Happened π)}
      (hsplit : s.history ++ news = pre ++ .dispatched r i entry :: post)
      (hnone : .dispatched r i entry ∉ news) : Owed pre entry.identity := by
    rcases append_eq_append_cons hsplit with ⟨rest, hold⟩ | ⟨before, -, hnew⟩
    · exact hinv.dispatched pre r i entry rest hold
    · exact absurd (hnew ▸ mem_append_right before mem_cons_self) hnone
  cases h <;> rename_i heq <;> subst heq
  case opened | refused | staged =>
    exact hinv.dispatched pre r i entry post hsplit
  case claimed | recorded | rolledBack =>
    exact hnews hsplit (by simp)
  case dispatched c j now places head todo phase news hsession hphase =>
    rcases hphase with ⟨exc, -, rfl⟩ | ⟨event, -, rfl⟩
    · exact hnews hsplit (by simp)
    rcases append_eq_append_cons hsplit with ⟨rest, hold⟩ | ⟨before, hpre, hnew⟩
    · exact hinv.dispatched pre r i entry rest hold
    cases before with
    | nil =>
      obtain ⟨hhead, -⟩ := List.cons.inj hnew
      cases hhead
      rw [hpre, append_nil]
      exact hinv.todo _ _ hsession (_, entry) mem_cons_self
    | cons => simp at hnew
  case concluded hnone =>
    exact hnews hsplit (hnone r i entry)
  case committed hcommitted =>
    refine hnews hsplit ?_
    rcases hcommitted with rfl | ⟨rfl, -⟩ <;> simp

theorem Inv.effect : Inv s' where
  rows := fun i => (hinv.row_effect h i).2
  pending := fun _ _ _ _ hslot => hinv.pending_effect h hslot
  held := fun _ _ hholds => hinv.held_effect h hholds
  todo := fun _ _ hsession => (hinv.session_effect h hsession).1
  outcome := fun _ _ _ _ _ _ hsession => (hinv.session_effect h hsession).2 _ _ _ rfl
  inserts := hinv.inserts_effect h
  dispatched := fun _ _ _ _ _ hsplit => hinv.dispatched_effect h hsplit

end

theorem Inv.initial : Inv ({} : Sys φ π) where
  rows := by simp [Db.rows]
  pending := by simp
  held := by simp [Sys.Holds]
  todo := by simp
  outcome := by simp
  inserts := by simp
  dispatched := by simp

/-! ## Transactional, exclusive, at least once -/

/-- **The outbox**, over every interleaving of requests and relays: an event is dispatched only
    after a transaction that staged it has committed; no two open transactions have claimed the
    same row; and a committed row stays, or goes with the commit of a relay to which the dispatcher
    had returned for it with no failed subscriber. -/
theorem outbox_at_least_once (cfg : RelayConfig) (codec : Codec φ π)
    (hrun : Run (Sys.step cfg codec) Always {} s) :
    (∀ pre r i entry post, s.history = pre ++ .dispatched r i entry :: post →
      ∃ p rows row, .committed p rows ∈ pre ∧ row ∈ rows ∧ row.identity = entry.identity) ∧
    (∀ r r' i, s.Holds r i → s.Holds r' i → r = r') ∧
    (∀ a s', s.step cfg codec a = some s' → ∀ i row, s.db.rows[i]? = some (some row) →
      (∃ row', s'.db.rows[i]? = some (some row') ∧ row'.identity = row.identity) ∨
        ∃ r, a = .commit r ∧ ∃ result, .returned r i result ∈ s.history ∧ result.failures = []) := by
  have hinv : Inv s :=
    hrun.invariant (fun hinv _ hstep => hinv.effect (effect_of_step hstep)) .initial
  refine ⟨hinv.dispatched, ?_, ?_⟩
  · intro r r' i hholds hholds'
    obtain ⟨found, next, hslot⟩ := hinv.held r i hholds
    obtain ⟨found', next', hslot'⟩ := hinv.held r' i hholds'
    cases hslot.symm.trans hslot'
    rfl
  · intro a s' hstep i row hrow
    exact (hinv.row_effect (effect_of_step hstep) i).1 row hrow

/-- An event that fails once: it is rescheduled, claimed again when it is due, and deleted. -/
theorem outbox_at_least_once_retry :
    let cfg : RelayConfig := { jitter := false }
    ∃ s, Run (Sys.step cfg verbatim) Always {} s ∧
      (s.db.rows = [none] ∧ s.history.length = 5) ∧
      ∀ pre r i entry post, s.history = pre ++ .dispatched r i entry :: post →
        ∃ p rows row, .committed p rows ∈ pre ∧ row ∈ rows ∧ row.identity = entry.identity := by
  intro cfg
  refine Run.exists_of_replay_and
    [.request 0, .tick 0, .publish 0 ⟨lit "UserRegistered", lit "e", 0, ()⟩ 1, .commit 0,
      .claim 1, .tick 0, .claim 2, .dispatch 1,
      .conclude 1 (.returned [(lit "audit", .returned),
        (lit "mail", .raised ⟨lit "OSError", lit "refused"⟩)]),
      .record 1 0, .commit 1, .commit 2, .tick 1, .claim 3, .dispatch 3,
      .conclude 3 (.returned [(lit "audit", .returned), (lit "mail", .returned)]),
      .record 3 0, .commit 3] (by decide +kernel) fun hrun _ => ?_
  exact (outbox_at_least_once cfg verbatim hrun).1

end Outbox
