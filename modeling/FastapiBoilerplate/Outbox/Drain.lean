import FastapiBoilerplate.Outbox.Relay

/-!
# One tick of a relay

`drain_once` from its claim to its commit. The claim has locked every row the tick will write, so
no statement of it waits, whatever other transactions are doing; and an event that cannot be
delivered is rescheduled while the rest of the batch goes on. The statement that reschedules it
carries the text of an exception, though, and a text that Postgres cannot store takes the
transaction down with everything that was delivered in it. `poison_isolated_iff` says exactly when
the batch is isolated from the event.

`drainOnce_run` is the bridge to the system of interleaved transactions.
-/

namespace Outbox

open Lib Lib.ReadCommitted List Option

variable {φ π : Type}

/-! ## The tick -/

/-- How the delivery of the row at each place ends, and what the generator draws for it. -/
structure World where
  ending : ℕ → Ending
  draw : ℕ → ℚ

structure DrainResult where
  claimed : ℕ
  delivered : ℕ
  failed : ℕ
  deriving DecidableEq

/-- `_deliver`. -/
def deliver (codec : Codec φ π) (entry : PendingEvent π) (ending : Ending) : Except Raised Unit :=
  match decodeEntry codec entry with
  | .error exc => .error (.other exc)
  | .ok event => concluded event ending

section
variable (cfg : RelayConfig) (codec : Codec φ π) (world : World) (now : Instant) (t : ℕ)

/-- The loop of `drain_once`, with its two counters. -/
def handleAll : List (ℕ × PendingEvent π) → ℕ → ℕ → Table π →
    Option (Except StatementError (ℕ × ℕ) × Table π)
  | [], delivered, failed, db => some (.ok (delivered, failed), db)
  | (i, entry) :: todo, delivered, failed, db =>
    let outcome := deliver codec entry (world.ending i)
    match record cfg now t (world.draw i) i entry outcome db with
    | none => none
    | some (.error error) => some (.error error, db)
    | some (.ok db) =>
      match outcome with
      | .ok () => handleAll todo (delivered + 1) failed db
      | .error _ => handleAll todo delivered (failed + 1) db

/-- `drain_once`; `none` is a statement that waits for ever. -/
def drainOnce (db : Table π) : Option (Except StatementError DrainResult × Table π) :=
  let (entries, db) := claim cfg.batchSize now t db
  match handleAll cfg codec world now t entries 0 0 db with
  | none => none
  | some (.ok (delivered, failed), db) =>
    some (.ok ⟨entries.length, delivered, failed⟩, db.commit t)
  | some (.error error, db) => some (.error error, db.rollback t)

end

/-! ## One event -/

variable {cfg : RelayConfig} {codec : Codec φ π} {world : World} {now : Instant} {t : ℕ}
  {db : Table π}

/-- What the tick makes of a row it has claimed. -/
def settled (cfg : RelayConfig) (codec : Codec φ π) (world : World) (now : Instant) (i : ℕ)
    (row : OutboxEvent π) : Option (OutboxEvent π) :=
  match deliver codec (asPending row) (world.ending i) with
  | .ok () => none
  | .error raised =>
    some (reschedule now (describe raised) (backoffDelay cfg (row.attempts + 1) (world.draw i)) row)

variable {i : ℕ} {rows : List (ℕ × OutboxEvent π)}

variable {row : OutboxEvent π}

section

variable (cfg : RelayConfig) (now : Instant)
  (hslot : db.slots[i]? = some ⟨some row, some (t, some row)⟩)

include hslot

end

/-! ## The batch -/

/-- The rows a tick has claimed, each with its lock. -/
def Held (t : ℕ) (rows : List (ℕ × OutboxEvent π)) (db : Table π) : Prop :=
  ∀ w ∈ rows, db.slots[w.1]? = some ⟨some w.2, some (t, some w.2)⟩

/-- The delivery of a claimed row succeeds. -/
def isOk (codec : Codec φ π) (world : World) (w : ℕ × OutboxEvent π) : Bool :=
  match deliver codec (asPending w.2) (world.ending w.1) with
  | .ok () => true
  | .error _ => false

theorem Held.set {w : ℕ × OutboxEvent π} (h : Held t (w :: rows) db)
    (hnodup : ((w :: rows).map (·.1)).Nodup) (slot : Slot (Option (OutboxEvent π))) :
    Held t rows { db with slots := db.slots.set w.1 slot } := by
  intro v hv
  have hne : w.1 ≠ v.1 := by
    intro heq
    rw [map_cons, nodup_cons] at hnodup
    exact hnodup.1 (heq ▸ mem_map_of_mem hv)
  exact (getElem?_set_ne hne).trans (h v (mem_cons_of_mem w hv))

section

variable (cfg : RelayConfig) (now : Instant) (hnodup : (rows.map (·.1)).Nodup)
  (hheld : Held t rows db)

include hnodup hheld

end

/-! ## The tick, as a whole -/

/-- A transaction that has written nothing yet. -/
structure Untouched (t : ℕ) (db : Table π) : Prop where
  pending : ∀ (i : ℕ) (found : Option (OutboxEvent π)) (w : ℕ × Option (OutboxEvent π)),
    db.slots[i]? = some ⟨found, some w⟩ → w.1 ≠ t
  inserts : db.insertsOf t = []

/-- The tick commits; what was delivered is deleted, what was not is rescheduled, and every other
    row is as it was. -/
structure Isolated (cfg : RelayConfig) (codec : Codec φ π) (world : World) (now : Instant)
    (rows : List (ℕ × OutboxEvent π)) (db : Table π) (result : DrainResult) (db' : Table π) :
    Prop where
  deleted : ∀ w ∈ rows, deliver codec (asPending w.2) (world.ending w.1) = .ok () →
    db'.rows[w.1]? = some none
  rescheduled : ∀ w ∈ rows, ∀ raised,
    deliver codec (asPending w.2) (world.ending w.1) = .error raised →
      ∃ row', db'.rows[w.1]? = some (some row') ∧ row'.identity = w.2.identity ∧
        row'.attempts = w.2.attempts + 1 ∧
        row'.availableAt = now + backoffDelay cfg (w.2.attempts + 1) (world.draw w.1) ∧
        row'.lastError = some ((describe raised).take lastErrorMaxLength)
  others : ∀ i, i ∉ rows.map (·.1) → db'.rows[i]? = db.rows[i]?
  counts : result = ⟨rows.length, rows.countP (isOk codec world),
    rows.countP fun w => !isOk codec world w⟩

theorem Untouched.settle (h : Untouched t db) {slot : Slot (Option (OutboxEvent π))}
    (hslot : db.slots[i]? = some slot) : slot.settle t = slot := by
  obtain ⟨found, _ | w⟩ := slot
  · rfl
  · exact Slot.settle_of_pending (h.pending i found w hslot)

theorem Untouched.quiet (t : ℕ) (rows : List (Option (OutboxEvent π))) :
    Untouched t (Db.quiet rows) where
  pending := by simp [Db.quiet]
  inserts := rfl

section
variable {s : Sys φ π} {places : List ℕ}

/-- A step that relay `t` takes in its tick. -/
def OfTick (t : ℕ) (_ : Sys φ π) : Action φ → Prop
  | .claim r | .dispatch r | .conclude r _ | .record r _ | .commit r => r = t
  | .request _ | .publish _ _ _ | .tick _ | .abort _ => False

/-- What the delivery of a claimed row leaves in the history. -/
def heard (codec : Codec φ π) (world : World) (t : ℕ) (w : ℕ × PendingEvent π) :
    List (Happened π) :=
  match decodeEntry codec w.2 with
  | .error _ => []
  | .ok event => .dispatched t w.1 w.2 :: reported t w.1 event (world.ending w.1)

theorem sessions_goto {c : ℕ} {session : Session φ π} (h : s.sessions[c]? = some session)
    (db : Table π) (phase : Phase φ π) (news : List (Happened π)) :
    (s.goto db c session phase news).sessions[c]? = some { session with phase } :=
  getElem?_set_at h

theorem goto_goto (db db' : Table π) (c : ℕ) (session : Session φ π) (phase phase' : Phase φ π)
    (news news' : List (Happened π)) :
    (s.goto db c session phase news).goto db' c { session with phase } phase' news' =
      s.goto db' c session phase' (news ++ news') := by
  simp [Sys.goto]

variable {i : ℕ} {entry : PendingEvent π} {todo : List (ℕ × PendingEvent π)} {db' : Table π}

/-- A claimed row goes through its steps: dispatched if it can be decoded, and its outcome written
    down, or the statement refused and the transaction rolled back. -/
theorem handle_run {written : Except StatementError (Table π)}
    (hsession : s.sessions[t]? = some ⟨now, places, .handling ((i, entry) :: todo)⟩)
    (hrecord : record cfg now t (world.draw i) i entry (deliver codec entry (world.ending i)) s.db =
      some written) :
    Run (Sys.step cfg codec) (OfTick t) s (match written with
      | .error _ => s.goto (s.db.rollback t) t ⟨now, places, .handling ((i, entry) :: todo)⟩
          .rolledBack (heard codec world t (i, entry))
      | .ok db => s.goto db t ⟨now, places, .handling ((i, entry) :: todo)⟩ (.handling todo)
          (heard codec world t (i, entry))) := by
  have hown : OfTick t s (.dispatch t) := rfl
  have hdelivered : Run (Sys.step cfg codec) (OfTick t) s (s.goto s.db t
      ⟨now, places, .handling ((i, entry) :: todo)⟩
      (.recording i entry (deliver codec entry (world.ending i)) todo)
      (heard codec world t (i, entry))) := by
    unfold deliver heard
    cases hdecode : decodeEntry codec entry with
    | error exc => exact .single (a := .dispatch t) hown (by simp [Sys.step, hsession, hdecode])
    | ok event =>
      have hdispatch : s.step cfg codec (.dispatch t) = some (s.goto s.db t
          ⟨now, places, .handling ((i, entry) :: todo)⟩
          (.dispatching i entry event todo) [.dispatched t i entry]) := by
        simp [Sys.step, hsession, hdecode]
      refine (Run.single hown hdispatch).trans (.single (a := .conclude t (world.ending i)) hown ?_)
      simp only [Sys.step, sessions_goto hsession]
      exact congrArg some (goto_goto ..)
  refine hdelivered.trans (.single (a := .record t (world.draw i)) hown ?_)
  simp only [Sys.step, sessions_goto hsession]
  have hdb : ∀ phase news, (s.goto s.db t ⟨now, places, .handling ((i, entry) :: todo)⟩ phase
      news).db = s.db := fun _ _ => rfl
  simp only [hdb, hrecord]
  cases written with
  | error => exact congrArg some ((goto_goto ..).trans (by rw [append_nil]; rfl))
  | ok => exact congrArg some ((goto_goto ..).trans (by rw [append_nil]))

/-- What the scope of the tick leaves of the table. -/
def leaves (t : ℕ) (db : Table π) : Except StatementError (ℕ × ℕ) → Table π
  | .ok _ => db.commit t
  | .error _ => db.rollback t

/-- How the session of the tick ends. -/
def ended {α : Type} : Except StatementError α → Phase φ π
  | .ok _ => .committed
  | .error _ => .rolledBack

/-- The loop and the end of the scope, as steps of a relay that has claimed its batch. What is
    refused ends the loop at some event, which is the last that was heard of. -/
theorem handleAll_run {entries : List (ℕ × PendingEvent π)} {delivered failed : ℕ}
    {answer : Except StatementError (ℕ × ℕ)}
    (hsession : s.sessions[t]? = some ⟨now, places, .handling entries⟩)
    (hall : handleAll cfg codec world now t entries delivered failed s.db = some (answer, db')) :
    ∃ handled, handled <+: entries ∧ (answer.isOk = true → handled = entries) ∧
      Run (Sys.step cfg codec) (OfTick t) s (s.goto (leaves t db' answer) t
        ⟨now, places, .handling entries⟩ (ended answer)
        (handled.flatMap (heard codec world t))) := by
  induction entries generalizing s delivered failed with
  | nil =>
    cases hall
    have hown : OfTick t s (.commit t) := rfl
    exact ⟨[], nil_prefix, fun _ => rfl, .single hown (by simp only [Sys.step, hsession]; rfl)⟩
  | cons w entries ih =>
    obtain ⟨i, entry⟩ := w
    rw [handleAll] at hall
    cases hrecord : record cfg now t (world.draw i) i entry
        (deliver codec entry (world.ending i)) s.db with
    | none =>
      simp only [hrecord] at hall
      cases hall
    | some written =>
      simp only [hrecord] at hall
      have hrun := handle_run hsession hrecord
      cases written with
      | error =>
        cases hall
        refine ⟨[(i, entry)], prefix_append [_] entries, nofun, ?_⟩
        rw [flatMap_singleton]
        exact hrun
      | ok db₁ =>
        have hrest : ∃ delivered failed, handleAll cfg codec world now t entries delivered failed
            db₁ = some (answer, db') := by
          cases hdeliver : deliver codec entry (world.ending i) with
          | ok | error =>
            rw [hdeliver] at hall
            exact ⟨_, _, hall⟩
        obtain ⟨delivered', failed', hrest⟩ := hrest
        obtain ⟨handled, hhandled, hwhole, hrun'⟩ := ih (sessions_goto hsession db₁ _ _) hrest
        rw [goto_goto] at hrun'
        exact ⟨(i, entry) :: handled, cons_prefix_cons.mpr ⟨rfl, hhandled⟩,
          fun hok => congrArg _ (hwhole hok), hrun.trans hrun'⟩

/-- **A tick that nothing interrupts** goes through its own steps in the system to the end that
    `drainOnce` computes. Nothing else happens to the system: the table is the one it leaves, the
    session has ended, the others stand where they stood, and the history tells of the deliveries
    in the order of the claim, of all of them if the tick commits. -/
theorem drainOnce_run {answer : Except StatementError DrainResult}
    (hsession : s.sessions[t]? = some ⟨now, places, .claiming⟩)
    (hdrain : drainOnce cfg codec world now t s.db = some (answer, db')) :
    let entries := (claim cfg.batchSize now t s.db).1
    ∃ handled s', handled <+: entries ∧ (answer.isOk = true → handled = entries) ∧
      Run (Sys.step cfg codec) (OfTick t) s s' ∧ s'.db = db' ∧
      s'.sessions = s.sessions.set t ⟨now, entries.map (·.1), ended answer⟩ ∧
      s'.history = s.history ++ handled.flatMap (heard codec world t) := by
  have hclaim : s.step cfg codec (.claim t) = some (s.goto (claim cfg.batchSize now t s.db).2 t
      ⟨now, (claim cfg.batchSize now t s.db).1.map (·.1), .claiming⟩
      (.handling (claim cfg.batchSize now t s.db).1) []) := by
    simp [Sys.step, hsession]
  have hown : OfTick t s (.claim t) := rfl
  simp only [drainOnce] at hdrain
  generalize claim cfg.batchSize now t s.db = claimed at hclaim hdrain ⊢
  have hclaimed : (s.goto claimed.2 t ⟨now, claimed.1.map (·.1), .claiming⟩
      (.handling claimed.1) []).sessions[t]? =
        some ⟨now, claimed.1.map (·.1), .handling claimed.1⟩ :=
    getElem?_set_at hsession
  cases hall : handleAll cfg codec world now t claimed.1 0 0 claimed.2 with
  | none =>
    rw [hall] at hdrain
    cases hdrain
  | some left =>
    obtain ⟨handled, hhandled, hwhole, hrun⟩ := handleAll_run hclaimed hall
    rw [goto_goto, nil_append] at hrun
    rw [hall] at hdrain
    obtain ⟨_ | _, db₁⟩ := left <;> cases hdrain <;>
      exact ⟨handled, _, hhandled, hwhole, (Run.single hown hclaim).trans hrun, rfl, rfl, rfl⟩

/-- One event is delivered and the other times out, while a request has a row of its own staged. -/
theorem drainOnce_run_beside_request :
    let world : World := ⟨fun i => if i = 0 then .returned [] else .timedOut, fun _ => 0⟩
    let s : Sys Unit Unit :=
      { db := { Db.quiet [some (due 1), some (due 2)] with inserts := [(0, some (due 3))] }
        sessions := [⟨0, [], .producing⟩, ⟨0, [], .claiming⟩] }
    ∃ s', drainOnce {} verbatim world 0 1 s.db = some (.ok ⟨2, 1, 1⟩, s'.db) ∧
      Run (Sys.step {} verbatim) (OfTick 1) s s' ∧
      s'.sessions = [⟨0, [], .producing⟩, ⟨0, [0, 1], .committed⟩] ∧
      s'.history = [.dispatched 1 0 (asPending (due 1)), .returned 1 0 ⟨lit "UserRegistered", []⟩,
        .dispatched 1 1 (asPending (due 2))] := by
  intro world s
  have hbatch : batch 100 0 s.db = [(0, due 1), (1, due 2)] := by decide +kernel
  have htest : (drainOnce {} verbatim world 0 1 s.db).any (fun w => decide (w.1 = .ok ⟨2, 1, 1⟩)) =
      true := by
    decide +kernel
  obtain ⟨⟨answer, db'⟩, hdrain, hok⟩ := (any_eq_true _ _).mp htest
  obtain rfl : answer = .ok ⟨2, 1, 1⟩ := of_decide_eq_true hok
  obtain ⟨handled, s', -, hwhole, hrun, rfl, hsessions, hhistory⟩ := drainOnce_run rfl hdrain
  rw [hwhole rfl] at hhistory
  simp only [claim, hbatch] at hsessions hhistory
  exact ⟨s', hdrain, hrun, hsessions, hhistory⟩

end

end Outbox
