import FastapiBoilerplate.Idempotency.Memory

/-!
# The Redis store under the middleware

`src/idempotency/redis_store.py`. What is one step for the in-memory store is several here:
each command is atomic on the server, and other requests' commands land between the `SET NX`
that failed and the `GET` that asks what is there. A command may also be refused before it
takes effect, or take effect and have its reply lost; both reach the middleware as
`IdempotencyStoreUnavailableError`.

The server drops a key at its deadline, so nothing is ever judged by this process's clock;
`now` is the server's. A payload is a record of this release's schema, a record of another
one (`decode_record` answers `None`), or something else altogether (`decode_record` raises,
with the message it carries).
-/

namespace Idempotency.Redis

open Lib Lease

/-! ## The server -/

/-- What `decode_record` can make of a stored value. -/
inductive Payload
  | record (record : IdempotencyRecord)
  | otherSchema
  | malformed (message : String)

abbrev Db := AList fun _ : String => Payload × Time

namespace Db

variable (db : Db)

/-- `GET`. -/
def get (name : String) (now : Time) : Option Payload :=
  match db.lookup name with
  | some (payload, expires) => if expires ≤ now then none else some payload
  | none => none

/-- `SET name payload EX ttl`. -/
def set (name : String) (payload : Payload) (ttl : Time) (now : Time) : Db :=
  db.insert name (payload, now + ttl)

end Db

/-- How a command goes: answered, refused without effect, or its reply lost. -/
inductive Fault
  | none
  | refused
  | lost
  deriving DecidableEq

/-! ## The system -/

/-- Where a request stands; `claiming` and `reading` are the two commands of one attempt of
    `reserve`'s loop. -/
inductive Phase
  | claiming (attempt : ℕ)
  | reading (attempt : ℕ)
  | overwriting
  | executing (capture : Capture) (deadline : Time)
  | finishing (op : StoreOp) (deadline : Time)
  | answered (answer : Answer)
  | unprotected
  | stored (record : IdempotencyRecord) (expires : Time)
  | released
  | abandoned

structure Handling where
  request : Request
  phase : Phase

structure Sys where
  db : Db := ∅
  reqs : List Handling := []
  clock : Time := 0
  writer : AList (fun _ : String => ℕ) := ∅

/-- `RedisIdempotencyStore`'s settings beside the middleware's. -/
structure Settings extends IdempotencyConfig where
  nameSpace : String := "idempotency"
  ttl : Ttl := {}

inductive Action
  | arrive (r : Request)
  | command (i : ℕ) (now : Time) (fault : Fault)
  | send (i : ℕ) (message : Message)
  | appReturns (i : ℕ)
  | appRaises (i : ℕ)
  | abandon (i : ℕ)

/-- `_RESERVE_ATTEMPTS`. -/
def reserveAttempts : ℕ := 3

namespace Sys

variable (cfg : Settings) (s : Sys)

/-- `_name`. -/
def name (r : Request) : String := cfg.nameSpace ++ ":" ++ r.fullKey

def setPhase (i : ℕ) (r : Request) (p : Phase) : Sys := { s with reqs := s.reqs.set i ⟨r, p⟩ }

/-- `__call__` on an unavailable store. -/
def unavailable (i : ℕ) (r : Request) (message : String) (details : List (String × String)) : Sys :=
  s.setPhase i r <|
    if cfg.failOpen then .unprotected
    else .answered (.error (idempotencyStoreUnavailableError message details))

/-- The reservation reaches the server. -/
def claim (i : ℕ) (r : Request) (now : Time) : Sys :=
  { s with
    db := s.db.set (name cfg r) (.record r.reservation) cfg.ttl.reservation now
    writer := s.writer.insert (name cfg r) i }

def unreachable (i : ℕ) (r : Request) : Sys :=
  s.unavailable cfg i r "Could not reach the idempotency store." []

def execute (i : ℕ) (r : Request) (now : Time) : Sys :=
  s.setPhase i r (.executing {} (now + cfg.ttl.reservation))

/-- `SET name payload NX EX reservation_ttl`. -/
def setNx (i : ℕ) (r : Request) (attempt : ℕ) (now : Time) (fault : Fault) : Sys :=
  match fault, s.db.get (name cfg r) now with
  | .refused, _ => s.unreachable cfg i r
  | .lost, some _ => s.unreachable cfg i r
  | .lost, none => (s.claim cfg i r now).unreachable cfg i r
  | .none, some _ => s.setPhase i r (.reading attempt)
  | .none, none => (s.claim cfg i r now).execute cfg i r now

/-- `GET name`, and what the loop does with the answer. -/
def getName (i : ℕ) (r : Request) (attempt : ℕ) (now : Time) (fault : Fault) : Sys :=
  if fault ≠ .none then s.unreachable cfg i r
  else
    match s.db.get (name cfg r) now with
    | none =>
      if attempt + 1 < reserveAttempts then s.setPhase i r (.claiming (attempt + 1))
      else s.unavailable cfg i r "Could not obtain an idempotency reservation."
        [("attempts", toString reserveAttempts)]
    | some (.record record) =>
      s.setPhase i r (.answered (handleExisting record r.key r.fingerprint))
    | some .otherSchema => s.setPhase i r .overwriting
    | some (.malformed message) => s.unavailable cfg i r message []

/-- The unconditional `SET` over a record of another schema. -/
def overwrite (i : ℕ) (r : Request) (now : Time) (fault : Fault) : Sys :=
  match fault with
  | .refused => s.unreachable cfg i r
  | .lost => (s.claim cfg i r now).unreachable cfg i r
  | .none => (s.claim cfg i r now).execute cfg i r now

/-- `release` or `complete`. A failure is logged and nothing more; the reply does not
    matter. -/
def settle (i : ℕ) (r : Request) (op : StoreOp) (now : Time) (fault : Fault) : Sys :=
  if fault = .refused then s.setPhase i r .abandoned
  else
    match op with
    | .release =>
      { s.setPhase i r .released with
        db := s.db.erase (name cfg r), writer := s.writer.erase (name cfg r) }
    | .complete record =>
      { s.setPhase i r (.stored record (now + cfg.ttl.record)) with
        db := s.db.set (name cfg r) (.record record) cfg.ttl.record now
        writer := s.writer.insert (name cfg r) i }

/-- The next command of request `i`, if its phase has one. -/
def command (i : ℕ) (r : Request) (p : Phase) (now : Time) (fault : Fault) : Option Sys :=
  let s := { s with clock := now }
  match p with
  | .claiming attempt => some (s.setNx cfg i r attempt now fault)
  | .reading attempt => some (s.getName cfg i r attempt now fault)
  | .overwriting => some (s.overwrite cfg i r now fault)
  | .finishing op _ => some (s.settle cfg i r op now fault)
  | _ => none

def step : Action → Option Sys
  | .arrive r => some { s with reqs := s.reqs ++ [⟨r, .claiming 0⟩] }
  | .command i now fault =>
    match s.reqs[i]? with
    | some ⟨r, p⟩ => if s.clock ≤ now then s.command cfg i r p now fault else none
    | none => none
  | .send i message =>
    match s.reqs[i]? with
    | some ⟨r, .executing c d⟩ =>
      some (s.setPhase i r (.executing (capturingSend cfg.toIdempotencyConfig r.key c message).1 d))
    | _ => none
  | .appReturns i =>
    match s.reqs[i]? with
    | some ⟨r, .executing c d⟩ => some (s.setPhase i r (.finishing (c.outcome r.fingerprint) d))
    | _ => none
  | .appRaises i =>
    match s.reqs[i]? with
    | some ⟨r, .executing _ d⟩ => some (s.setPhase i r (.finishing .release d))
    | _ => none
  | .abandon i =>
    match s.reqs[i]? with
    | some ⟨r, .finishing _ _⟩ => some (s.setPhase i r .abandoned)
    | _ => none

end Sys

/-! ## The server is a lease table, as long as every payload is one of ours -/

/-- What a request believes stands under its name. -/
def Handling.claim (cfg : Settings) (h : Handling) :
    Option (Lease.Claim String Payload Time) :=
  match h.phase with
  | .executing _ d => some ⟨Sys.name cfg h.request, .record h.request.reservation, d⟩
  | .finishing _ d => some ⟨Sys.name cfg h.request, .record h.request.reservation, d⟩
  | .stored record e => some ⟨Sys.name cfg h.request, .record record, e⟩
  | _ => none

/-- The system as a lease table. -/
def Sys.table (cfg : Settings) (s : Sys) : Lease.Table String Payload Time where
  cell := cells s.db s.writer
  claim := claims (Handling.claim cfg) s.reqs
  clock := s.clock

/-- Every command that ends an execution is issued before the execution's own reservation
    lapses. -/
def Punctual (s : Sys) : Action → Prop
  | .command i now _ => ∀ r op d, s.reqs[i]? = some ⟨r, .finishing op d⟩ → now < d
  | _ => True

/-- No value of another release is stored, and nobody is about to overwrite one. -/
structure Ours (s : Sys) : Prop where
  payload : ∀ k p e, s.db.lookup k = some (p, e) → ∃ record, p = .record record
  phase : ∀ h ∈ s.reqs, h.phase ≠ .overwriting

variable {cfg : Settings} {s s' : Sys} {a : Action} {i : ℕ} {r : Request} {p p' : Phase}

theorem Ours.set (h : Ours s) (hdb : ∀ k p e, s'.db.lookup k = some (p, e) →
    s.db.lookup k = some (p, e) ∨ ∃ record, p = .record record)
    (hreqs : s'.reqs = s.reqs.set i ⟨r, p'⟩) (hp' : p' ≠ .overwriting) : Ours s' where
  payload k p e hk := by
    rcases hdb k p e hk with hk | hk
    · exact h.payload k p e hk
    · exact hk
  phase := by
    rw [hreqs]
    exact forall_mem_set h.phase hp'

variable {k name : String} {q : Payload} {e now : Time} {db : Db}

theorem lookup_set {payload : Payload} {ttl : Time}
    (h : (db.set name payload ttl now).lookup k = some (q, e)) :
    db.lookup k = some (q, e) ∨ q = payload := by
  by_cases hk : k = name
  · subst hk
    have e' := (AList.lookup_insert db).symm.trans h
    exact .inr (Prod.mk.inj (Option.some.inj e')).1.symm
  · exact .inl ((AList.lookup_insert_ne hk).symm.trans h)

theorem lookup_erase (h : AList.lookup k (db.erase name) = some (q, e)) :
    db.lookup k = some (q, e) := by
  by_cases hk : k = name
  · subst hk
    exact absurd ((AList.lookup_erase k db).symm.trans h) (by simp)
  · exact (AList.lookup_erase_ne hk).symm.trans h

/-- A phase without a claim, and not the one that overwrites. -/
def Phase.Idle (cfg : Settings) (p : Phase) : Prop :=
  (∀ r, Handling.claim cfg ⟨r, p⟩ = none) ∧ p ≠ .overwriting

/-- A refusal leaves the request idle, however `fail_open` is set. -/
theorem unavailable_eq (cfg : Settings) (s : Sys) (i : ℕ) (r : Request) (message : String)
    (details : List (String × String)) :
    ∃ p', p'.Idle cfg ∧ s.unavailable cfg i r message details = s.setPhase i r p' := by
  cases hf : cfg.failOpen with
  | true => exact ⟨.unprotected, ⟨fun _ => rfl, by simp⟩, by simp [Sys.unavailable, hf]⟩
  | false => exact ⟨.answered _, ⟨fun _ => rfl, by simp⟩, by simp [Sys.unavailable, hf]; rfl⟩

/-- What a step of the system is to the table, and that it brings in no foreign value. -/
def Refines (cfg : Settings) (s s' : Sys) : Prop :=
  Ours s' ∧ Run Lease.Table.step Always (s.table cfg) (s'.table cfg)

section Moves

variable {now : Time}

theorem free_of_get (hget : s.db.get (Sys.name cfg r) now = none) :
    (s.table cfg).Free (Sys.name cfg r) now := by
  intro c hc
  have hlook := (cells_eq_some hc).1
  unfold Db.get at hget
  rw [hlook] at hget
  by_contra hlt
  simp [hlt] at hget

theorem ours_claim (h : Ours s) (hp' : p' ≠ .overwriting) :
    Ours ((Sys.claim cfg { s with clock := now } i r now).setPhase i r p') := by
  refine h.set (fun k q e hk => ?_) rfl hp'
  rcases lookup_set hk with hk | rfl
  · exact .inl hk
  · exact .inr ⟨_, rfl⟩

section

variable (h : Ours s) (hi : s.reqs[i]? = some ⟨r, p⟩) (hnow : s.clock ≤ now)

include h hi hnow

/-- A request moves on without touching the server or its claim. -/
theorem refines_quiet (hclaim : Handling.claim cfg ⟨r, p'⟩ = Handling.claim cfg ⟨r, p⟩)
    (hp' : p' ≠ .overwriting) : Refines cfg s (Sys.setPhase { s with clock := now } i r p') :=
  ⟨h.set (fun _ _ _ hk => .inl hk) rfl hp',
    run_pass hnow rfl (claims_set_eq hi hclaim)⟩

theorem refines_unavailable (hclaim : Handling.claim cfg ⟨r, p⟩ = none) (message : String)
    (details : List (String × String)) :
    Refines cfg s (Sys.unavailable cfg { s with clock := now } i r message details) := by
  obtain ⟨p', hidle, e⟩ := unavailable_eq cfg { s with clock := now } i r message details
  rw [e]
  exact refines_quiet h hi hnow ((hidle.1 r).trans hclaim.symm) hidle.2

/-- `SET NX` on a free name: the request takes the lease. -/
theorem refines_take (hclaim : Handling.claim cfg ⟨r, p⟩ = none)
    (hget : s.db.get (Sys.name cfg r) now = none) :
    Refines cfg s (Sys.execute cfg (Sys.claim cfg { s with clock := now } i r now) i r now) := by
  refine ⟨ours_claim h (by simp), ?_⟩
  have hnone : (s.table cfg).claim i = none := (claims_of_getElem? hi).trans hclaim
  exact run_take
    (c := ⟨Sys.name cfg r, .record r.reservation, now + cfg.ttl.reservation⟩) hnow hnone
    (free_of_get hget)
    (cells_insert (AList.lookup_insert _) fun k hk => AList.lookup_insert_ne hk)
    (claims_set hi _)

theorem refines_take_lost (hclaim : Handling.claim cfg ⟨r, p⟩ = none)
    (hget : s.db.get (Sys.name cfg r) now = none) :
    Refines cfg s (Sys.unreachable cfg (Sys.claim cfg { s with clock := now } i r now) i r) := by
  obtain ⟨p', hidle, e⟩ := unavailable_eq cfg (Sys.claim cfg { s with clock := now } i r now) i r
    "Could not reach the idempotency store." []
  rw [Sys.unreachable, e]
  refine ⟨ours_claim h hidle.2, (refines_take h hi hnow hclaim hget).2.trans ?_⟩
  refine run_forget (i := i) rfl ?_ rfl
  have hset : ∀ q, claims (Handling.claim cfg) (s.reqs.set i ⟨r, q⟩) =
      Function.update (claims (Handling.claim cfg) s.reqs) i
        (Handling.claim cfg ⟨r, q⟩) := fun q => claims_set hi _
  show claims (Handling.claim cfg) (s.reqs.set i ⟨r, p'⟩) =
    Function.update (claims (Handling.claim cfg) (s.reqs.set i ⟨r, _⟩)) i none
  rw [hset, hset, Function.update_idem, hidle.1 r]

theorem refines_abandon :
    Refines cfg s (Sys.setPhase { s with clock := now } i r .abandoned) := by
  refine ⟨h.set (fun _ _ _ hk => .inl hk) rfl (by simp), ?_⟩
  have hforget : Run Lease.Table.step Always (s.table cfg)
      ((s.setPhase i r .abandoned).table cfg) :=
    run_forget rfl (claims_set hi _) rfl
  exact hforget.trans (run_pass hnow rfl rfl)

end

theorem refines_settle {op : StoreOp} {d : Time} {fault : Fault} (h : Ours s)
    (hi : s.reqs[i]? = some ⟨r, .finishing op d⟩) (hnow : s.clock ≤ now) (hlt : now < d) :
    Refines cfg s (Sys.settle cfg { s with clock := now } i r op now fault) := by
  have hclaim : (s.table cfg).claim i =
      some ⟨Sys.name cfg r, .record r.reservation, d⟩ := claims_of_getElem? hi
  unfold Sys.settle
  by_cases hf : fault = .refused
  · rw [if_pos hf]
    exact refines_abandon h hi hnow
  rw [if_neg hf]
  cases op with
  | release =>
    refine ⟨h.set (fun k q e hk => .inl (lookup_erase hk)) rfl (by simp), ?_⟩
    exact run_giveUp hnow hclaim hlt (cells_erase ..)
      (claims_set hi _)
  | complete =>
    refine ⟨h.set (fun k q e hk => ?_) rfl (by simp), ?_⟩
    · rcases lookup_set hk with hk | rfl
      · exact .inl hk
      · exact .inr ⟨_, rfl⟩
    · exact run_rewrite hnow hclaim hlt
        (cells_insert (AList.lookup_insert _) fun k hk => AList.lookup_insert_ne hk)
        (claims_set hi _)

end Moves

theorem refines_command {fault : Fault} (h : Ours s) (hi : s.reqs[i]? = some ⟨r, p⟩)
    (hnow : s.clock ≤ now) (hok : ∀ op d, p = .finishing op d → now < d)
    (hstep : s.command cfg i r p now fault = some s') : Refines cfg s s' := by
  cases p with
  | claiming attempt =>
    cases hstep
    cases fault with
    | refused => exact refines_unavailable h hi hnow rfl _ _
    | lost =>
      cases hget : s.db.get (Sys.name cfg r) now with
      | none => simpa only [Sys.setNx, hget] using refines_take_lost h hi hnow rfl hget
      | some _ =>
        simpa only [Sys.setNx, hget, Sys.unreachable] using refines_unavailable h hi hnow rfl _ _
    | none =>
      cases hget : s.db.get (Sys.name cfg r) now with
      | none => simpa only [Sys.setNx, hget] using refines_take h hi hnow rfl hget
      | some =>
        have hq : Refines cfg s (Sys.setPhase { s with clock := now } i r (.reading attempt)) :=
          refines_quiet h hi hnow rfl (by simp)
        simpa only [Sys.setNx, hget] using hq
  | reading =>
    cases hstep
    unfold Sys.getName
    split
    · exact refines_unavailable h hi hnow rfl _ _
    split
    · split
      · exact refines_quiet h hi hnow rfl (by simp)
      · exact refines_unavailable h hi hnow rfl _ _
    · exact refines_quiet h hi hnow rfl (by simp)
    · -- a value of another schema is not there
      rename_i hget
      have hlook : ∃ e, s.db.lookup (Sys.name cfg r) = some (.otherSchema, e) := by
        unfold Db.get at hget
        split at hget
        · rename_i q e hq
          obtain ⟨-, ⟨⟩⟩ := Option.ite_none_left_eq_some.mp hget
          exact ⟨e, hq⟩
        · cases hget
      obtain ⟨e, he⟩ := hlook
      obtain ⟨record, hrec⟩ := h.payload _ _ _ he
      cases hrec
    · exact refines_unavailable h hi hnow rfl _ _
  | overwriting => exact absurd rfl (h.phase _ (List.mem_of_getElem? hi))
  | finishing op d =>
    cases hstep
    exact refines_settle h hi hnow (hok op d rfl)
  | executing | answered | unprotected | stored | released | abandoned => cases hstep

/-- **The Redis store refines the lease table** too: a punctual step on a server that holds
    only our own records is a disciplined run of the table. -/
theorem refines_step (h : Ours s) (hok : Punctual s a) (hstep : s.step cfg a = some s') :
    Refines cfg s s' := by
  cases a with simp only [Sys.step] at hstep
  | arrive =>
    cases hstep
    exact ⟨⟨h.payload, forall_mem_snoc h.phase (by simp)⟩,
      run_pass (le_refl _) rfl (claims_append rfl)⟩
  | command =>
    split at hstep <;> [skip; cases hstep]
    rename_i r p hi
    split at hstep <;> [skip; cases hstep]
    refine refines_command h hi ‹_› ?_ hstep
    rintro op d rfl
    exact hok r op d hi
  | send | appReturns | appRaises =>
    split at hstep <;> cases hstep
    rename_i hi
    exact refines_quiet h hi (le_refl _) rfl (by simp)
  | abandon =>
    split at hstep <;> cases hstep
    exact refines_abandon h ‹_› (le_refl _)

/-- In a punctual run on a server of our own records, every request is right about its own
    entry, until it lapses. -/
theorem honest_of_punctual (h₀ : Ours s) (hreqs : s.reqs = [])
    (hrun : Run (Sys.step cfg) Punctual s s') : Ours s' ∧ Lease.Honest (s'.table cfg) := by
  apply hrun.invariant
  · intro t u a ⟨ho, hh⟩ hok hstep
    obtain ⟨ho', hrun⟩ := refines_step ho hok hstep
    exact ⟨ho', honest_of_run hrun hh⟩
  · refine ⟨h₀, fun i c hc => ?_⟩
    simp [Sys.table, claims, hreqs] at hc

end Idempotency.Redis
