import Mathlib.Algebra.Order.Ring.Rat
import FastapiBoilerplate.Lib.Lease
import FastapiBoilerplate.Idempotency.Middleware

/-!
# The in-memory store under the middleware

`src/idempotency/memory.py`, and the system of any number of requests that go through it.
Every store operation runs under the store's lock without suspending, so it is one step;
between a request's steps anything else may happen. Clock readings are taken inside the
operations — `reserve` takes two, one to judge the entry it finds and one to stamp its own.

A request is in one `Phase`. `deadline` and `expires`, the stamps its own entries were
written with, are remembered there for the properties only: the code keeps them in the store
and never asks who wrote an entry. `writer` says who did, and no transition reads it either.

An execution ends in `finishing`, with the store operation it is about to issue. The
operation may never take effect (`abandon`): the `await` it is issued from can be cancelled.
-/

namespace Idempotency

open Lib Lease

/-! ## The store -/

/-- The two lifetimes of `InMemoryIdempotencyStore`. -/
structure Ttl where
  record : Time := 86400
  reservation : Time := 60

/-- `_records`: what is stored under a key, and the reading at which it expires. -/
abbrev Memory := AList fun _ : String => IdempotencyRecord × Time

namespace Memory

variable (ttl : Ttl) (m : Memory)

/-- `_live`. -/
def live (key : String) (now : Time) : Memory × Option IdempotencyRecord :=
  match m.lookup key with
  | none => (m, none)
  | some (record, expiresAt) =>
    if expiresAt ≤ now then (m.erase key, none) else (m, some record)

/-- `reserve`. -/
def reserve (key fingerprint : String) (now now' : Time) : Memory × Option IdempotencyRecord :=
  match m.live key now with
  | (m, some existing) => (m, some existing)
  | (m, none) => (m.insert key ({ fingerprint }, now' + ttl.reservation), none)

/-- `complete`. -/
def complete (key : String) (record : IdempotencyRecord) (now : Time) : Memory :=
  m.insert key (record, now + ttl.record)

/-- `release`. -/
def release (key : String) : Memory := m.erase key

end Memory

/-! ## The system -/

/-- Where a request stands. -/
inductive Phase
  | arrived
  | executing (capture : Capture) (deadline : Time)
  | finishing (op : StoreOp) (deadline : Time)
  | answered (answer : Answer)
  | stored (record : IdempotencyRecord) (expires : Time)
  | released
  | abandoned
  deriving DecidableEq

/-- The expiry of the reservation a request is executing under. -/
def Phase.deadline : Phase → Option Time
  | .executing _ d => some d
  | .finishing _ d => some d
  | _ => none

/-- The record a request has stored, or is about to. -/
def Phase.completed : Phase → Option IdempotencyRecord
  | .finishing (.complete record) _ => some record
  | .stored record _ => some record
  | _ => none

/-- A request and its phase. -/
structure Handling where
  request : Request
  phase : Phase
  deriving DecidableEq

/-- The store, the requests by order of arrival, the latest clock reading, and who wrote
    each entry. -/
structure Sys where
  store : Memory := ∅
  reqs : List Handling := []
  clock : Time := 0
  writer : AList (fun _ : String => ℕ) := ∅

inductive Action
  | arrive (r : Request)
  | reserve (i : ℕ) (now now' : Time)
  | send (i : ℕ) (message : Message)
  | appReturns (i : ℕ)
  | appRaises (i : ℕ)
  | settle (i : ℕ) (now : Time)
  | abandon (i : ℕ)

/-- The last clock reading an action takes. -/
def Action.reading : Action → Option Time
  | .reserve _ _ now' => some now'
  | .settle _ now => some now
  | _ => none

namespace Sys

variable (ttl : Ttl) (cfg : IdempotencyConfig) (s : Sys)

def setPhase (i : ℕ) (r : Request) (p : Phase) : Sys := { s with reqs := s.reqs.set i ⟨r, p⟩ }

/-- `store.reserve`, and the branch `__call__` takes on what it answers. -/
def reserve (i : ℕ) (r : Request) (now now' : Time) : Sys :=
  match s.store.reserve ttl r.fullKey r.fingerprint now now' with
  | (store, some existing) =>
    { s.setPhase i r (.answered (handleExisting existing r.key r.fingerprint)) with
      store := store, clock := now' }
  | (store, none) =>
    { s.setPhase i r (.executing {} (now' + ttl.reservation)) with
      store := store, clock := now', writer := s.writer.insert r.fullKey i }

/-- The store operation an execution ends with. -/
def settle (i : ℕ) (r : Request) (op : StoreOp) (now : Time) : Sys :=
  match op with
  | .release =>
    { s.setPhase i r .released with
      store := s.store.release r.fullKey, clock := now, writer := s.writer.erase r.fullKey }
  | .complete record =>
    { s.setPhase i r (.stored record (now + ttl.record)) with
      store := s.store.complete ttl r.fullKey record now, clock := now
      writer := s.writer.insert r.fullKey i }

/-- One action. Readings never go back; a request only takes the step its phase has. -/
def step : Action → Option Sys
  | .arrive r => some { s with reqs := s.reqs ++ [⟨r, .arrived⟩] }
  | .reserve i now now' =>
    match s.reqs[i]? with
    | some ⟨r, .arrived⟩ =>
      if s.clock ≤ now ∧ now ≤ now' then some (s.reserve ttl i r now now') else none
    | _ => none
  | .send i message =>
    match s.reqs[i]? with
    | some ⟨r, .executing c d⟩ =>
      some (s.setPhase i r (.executing (capturingSend cfg r.key c message).1 d))
    | _ => none
  | .appReturns i =>
    match s.reqs[i]? with
    | some ⟨r, .executing c d⟩ => some (s.setPhase i r (.finishing (c.outcome r.fingerprint) d))
    | _ => none
  | .appRaises i =>
    match s.reqs[i]? with
    | some ⟨r, .executing _ d⟩ => some (s.setPhase i r (.finishing .release d))
    | _ => none
  | .settle i now =>
    match s.reqs[i]? with
    | some ⟨r, .finishing op _⟩ => if s.clock ≤ now then some (s.settle ttl i r op now) else none
    | _ => none
  | .abandon i =>
    match s.reqs[i]? with
    | some ⟨r, .finishing _ _⟩ => some (s.setPhase i r .abandoned)
    | _ => none

end Sys

/-- Every store operation that ends an execution is issued before the execution's own
    reservation lapses. -/
def Punctual (s : Sys) : Action → Prop
  | .settle i now => ∀ h ∈ s.reqs[i]?, ∀ d ∈ h.phase.deadline, now < d
  | _ => True

instance (s : Sys) : (a : Action) → Decidable (Punctual s a)
  | .settle i now =>
    inferInstanceAs (Decidable (∀ h ∈ s.reqs[i]?, ∀ d ∈ h.phase.deadline, now < d))
  | .arrive _ | .reserve _ _ _ | .send _ _ | .appReturns _ | .appRaises _ | .abandon _ =>
    inferInstanceAs (Decidable True)

/-! ## What a step is -/

/-- The ways the system moves, with the phase each of them needs. -/
inductive Move (ttl : Ttl) (s : Sys) : Action → Sys → Prop
  | arrive (r : Request) : Move ttl s (.arrive r) { s with reqs := s.reqs ++ [⟨r, .arrived⟩] }
  | reserve {i : ℕ} {r : Request} {now now' : Time} (hi : s.reqs[i]? = some ⟨r, .arrived⟩)
      (hnow : s.clock ≤ now) (hnow' : now ≤ now') :
      Move ttl s (.reserve i now now') (s.reserve ttl i r now now')
  | progress {a : Action} {i : ℕ} {r : Request} {p p' : Phase} {d : Time}
      (ha : a.reading = none) (hi : s.reqs[i]? = some ⟨r, p⟩) (hd : p.deadline = some d) (hd' : p'.deadline = some d)
      (hp' : ∀ record, p'.completed = some record →
        record.fingerprint = r.fingerprint ∧ ∃ stored, record.response = some stored) :
      Move ttl s a (s.setPhase i r p')
  | settle {i : ℕ} {r : Request} {op : StoreOp} {d now : Time}
      (hi : s.reqs[i]? = some ⟨r, .finishing op d⟩) (hnow : s.clock ≤ now) :
      Move ttl s (.settle i now) (s.settle ttl i r op now)
  | abandon {i : ℕ} {r : Request} {op : StoreOp} {d : Time}
      (hi : s.reqs[i]? = some ⟨r, .finishing op d⟩) :
      Move ttl s (.abandon i) (s.setPhase i r .abandoned)

variable {ttl : Ttl} {cfg : IdempotencyConfig} {s s' : Sys} {a : Action}

theorem step_move (h : s.step ttl cfg a = some s') : Move ttl s a s' := by
  cases a with simp only [Sys.step] at h
  | arrive r =>
    cases h
    exact .arrive r
  | reserve =>
    split at h
    · rename_i r hi
      obtain ⟨hck, ⟨⟩⟩ := Option.ite_none_right_eq_some.mp h
      exact .reserve hi hck.1 hck.2
    · cases h
  | send | appRaises =>
    split at h <;> cases h
    exact .progress rfl ‹_› rfl rfl (by simp [Phase.completed])
  | appReturns =>
    split at h <;> cases h
    rename_i r c d hi
    refine .progress rfl hi rfl rfl fun record e => ?_
    cases hc : c.outcome r.fingerprint with
    | release => simp [hc, Phase.completed] at e
    | complete record' =>
      obtain rfl : record' = record := by simpa [hc, Phase.completed] using e
      exact Capture.outcome_complete hc
  | settle =>
    split at h <;> [split at h; skip] <;> cases h
    exact .settle ‹_› ‹_›
  | abandon =>
    split at h <;> cases h
    exact .abandon ‹_›

/-- `reserve` finds an unexpired entry and answers it, or writes a reservation under a key
    that has none. -/
theorem Memory.reserve_cases (ttl : Ttl) (m : Memory) (key fingerprint : String) (now now' : Time) :
    (∃ record expires, m.lookup key = some (record, expires) ∧ now < expires ∧
      m.reserve ttl key fingerprint now now' = (m, some record)) ∨
    ((∀ e, m.lookup key = some e → e.2 ≤ now) ∧ ∃ m' : Memory,
      m.reserve ttl key fingerprint now now' = (m', none) ∧
      m'.lookup key = some ({ fingerprint }, now' + ttl.reservation) ∧
      ∀ k, k ≠ key → m'.lookup k = m.lookup k) := by
  cases hm : m.lookup key with
  | none =>
    refine .inr ⟨nofun, m.insert key _, ?_, AList.lookup_insert m, ?_⟩
    · simp only [Memory.reserve, Memory.live, hm]
    · exact fun k hk => AList.lookup_insert_ne hk
  | some e =>
    obtain ⟨record, expires⟩ := e
    by_cases hlt : expires ≤ now
    · refine .inr ⟨?_, (m.erase key).insert key _, ?_, AList.lookup_insert _, ?_⟩
      · rintro e ⟨⟩
        exact hlt
      · simp only [Memory.reserve, Memory.live, hm, if_pos hlt]
      · intro k hk
        rw [AList.lookup_insert_ne hk, AList.lookup_erase_ne hk]
    · refine .inl ⟨record, expires, rfl, not_le.mp hlt, ?_⟩
      simp only [Memory.reserve, Memory.live, hm, if_neg hlt]

theorem Sys.reserve_cases (ttl : Ttl) (s : Sys) (i : ℕ) (r : Request) (now now' : Time) :
    (∃ record expires, s.store.lookup r.fullKey = some (record, expires) ∧ now < expires ∧
      s.reserve ttl i r now now' =
        { s.setPhase i r (.answered (handleExisting record r.key r.fingerprint)) with
          clock := now' }) ∨
    ((∀ e, s.store.lookup r.fullKey = some e → e.2 ≤ now) ∧ ∃ m' : Memory,
      m'.lookup r.fullKey = some (r.reservation, now' + ttl.reservation) ∧
      (∀ k, k ≠ r.fullKey → m'.lookup k = s.store.lookup k) ∧
      s.reserve ttl i r now now' =
        { s.setPhase i r (.executing {} (now' + ttl.reservation)) with
          store := m', clock := now', writer := s.writer.insert r.fullKey i }) := by
  rcases Memory.reserve_cases ttl s.store r.fullKey r.fingerprint now now' with
    ⟨record, expires, hl, hlt, e⟩ | ⟨hfree, m', e, hkey, hother⟩
  · exact .inl ⟨record, expires, hl, hlt, by rw [Sys.reserve, e]; rfl⟩
  · exact .inr ⟨hfree, m', hkey, hother, by rw [Sys.reserve, e]⟩

/-! ## The store is a lease table -/

/-- What a request believes stands under its key. -/
def Handling.claim (h : Handling) : Option (Lease.Claim String IdempotencyRecord Time) :=
  match h.phase with
  | .executing _ d => some ⟨h.request.fullKey, h.request.reservation, d⟩
  | .finishing _ d => some ⟨h.request.fullKey, h.request.reservation, d⟩
  | .stored record e => some ⟨h.request.fullKey, record, e⟩
  | _ => none

/-- The system as a lease table. -/
def Sys.table (s : Sys) : Lease.Table String IdempotencyRecord Time where
  cell := cells s.store s.writer
  claim := claims Handling.claim s.reqs
  clock := s.clock

theorem Handling.claim_of_deadline {h : Handling} {d : Time} (hd : h.phase.deadline = some d) :
    h.claim = some ⟨h.request.fullKey, h.request.reservation, d⟩ := by
  obtain ⟨r, p⟩ := h
  cases p <;> cases hd <;> rfl

/-- **The store refines the lease table**: a punctual step of the system is a disciplined
    run of the table. -/
theorem table_refines (hok : Punctual s a) (hstep : s.step ttl cfg a = some s') :
    Run Lease.Table.step Always s.table s'.table := by
  cases step_move hstep with
  | arrive => exact run_pass (le_refl _) rfl (claims_append rfl)
  | @reserve i r now now' hi hnow hnow' =>
    have hnone : s.table.claim i = none := claims_of_getElem? hi
    rcases s.reserve_cases ttl i r now now' with
      ⟨record, _, -, -, e⟩ | ⟨hfree, m', hkey, hother, e⟩ <;> rw [e]
    · exact run_pass (hnow.trans hnow') rfl (claims_set_eq hi rfl)
    refine run_take (i := i) (c := ⟨r.fullKey, r.reservation, now' + ttl.reservation⟩)
      (hnow.trans hnow') hnone ?_ (cells_insert hkey hother)
      (claims_set hi _)
    -- what stood under the key has lapsed by the time the reservation is written
    intro c hc
    exact (hfree _ (cells_eq_some hc).1).trans hnow'
  | @progress _ i r p p' d _ hi hd hd' _ =>
    refine run_pass (le_refl _) rfl (claims_set_eq hi ?_)
    have hp : Handling.claim ⟨r, p⟩ = some ⟨r.fullKey, r.reservation, d⟩ :=
      Handling.claim_of_deadline hd
    have hp' : Handling.claim ⟨r, p'⟩ = some ⟨r.fullKey, r.reservation, d⟩ :=
      Handling.claim_of_deadline hd'
    exact hp'.trans hp.symm
  | @settle i r op d now hi hnow =>
    have hlt : now < d := hok _ hi d rfl
    have hclaim : s.table.claim i = some ⟨r.fullKey, r.reservation, d⟩ :=
      claims_of_getElem? hi
    cases op with
    | release =>
      exact run_giveUp hnow hclaim hlt (cells_erase ..)
        (claims_set hi _)
    | complete =>
      exact run_rewrite hnow hclaim hlt
        (cells_insert (AList.lookup_insert _) fun k hk => AList.lookup_insert_ne hk)
        (claims_set hi _)
  | abandon hi => exact run_forget rfl (claims_set hi _) rfl

theorem honest_init : Lease.Honest (Sys.table {}) := by
  exact nofun

/-- In a punctual run every request is right about its own entry, until it lapses. -/
theorem honest_of_punctual (hrun : Run (Sys.step ttl cfg) Punctual {} s) : Lease.Honest s.table :=
  honest_of_run (hrun.simulate Sys.table table_refines) honest_init

end Idempotency
