import FastapiBoilerplate.Lib.Run
import FastapiBoilerplate.DistributedLock.Base

/-!
# The in-memory lock backend

`src/distributed_lock/memory.py`, and any number of callers that hold leases from it. Every
operation runs under `_guard` without suspending, so it is one step. The clock is read twice in
most of them, by `_live` and for the deadline; both readings are the caller's to choose, as long
as they do not go backwards.

A claim that has run out stays in `_held` until somebody looks, and `clear` forgets the claims
but not the counters. What the callers have been told is the history of the exchanges, and the
rows of `_held` are tied to it in both directions (`Kept`): a row is a grant that stands, and a
grant that stands and has not run out is a row. That the history is lawful follows one step at a
time.
-/

namespace DistributedLock

open Lib List AList

/-- `_Held`. -/
structure Held where
  token : ℤ
  owner : Text
  expiresAt : Time

/-- `InMemoryLockBackend`. -/
structure Memory where
  held : AList fun _ : Text => Held := ∅
  counters : AList fun _ : Text => ℤ := ∅

namespace Memory

variable (m : Memory)

/-- `_live`. -/
def live (name : Text) (now : Time) : Memory × Option Held :=
  match m.held.lookup name with
  | none => (m, none)
  | some row =>
    if row.expiresAt ≤ now then ({ m with held := m.held.erase name }, none) else (m, some row)

/-- `acquire`, of a name that is valid. -/
def claim (name owner : Text) (ttlSeconds now now' : Time) : Memory × Option Lease :=
  match m.live name now with
  | (m, some _) => (m, none)
  | (m, none) =>
    let token := (m.counters.lookup name).getD 0 + 1
    ({ held := m.held.insert name { token, owner, expiresAt := now' + ttlSeconds }
       counters := m.counters.insert name token },
     some { name, token, owner, ttlSeconds, expiresAt := now' + ttlSeconds })

/-- `acquire`. -/
def acquire (name owner : Text) (ttlSeconds now now' : Time) : Memory × Answer :=
  match validateLockName name with
  | .error error => (m, .invalid error)
  | .ok _ => (m.claim name owner ttlSeconds now now').map id .acquired

/-- `extend`. -/
def extend (lease : Lease) (ttlSeconds now now' : Time) : Memory × Option Lease :=
  match m.live lease.name now with
  | (m, none) => (m, none)
  | (m, some row) =>
    if row.token ≠ lease.token then (m, none)
    else
      ({ m with held := m.held.insert lease.name { row with expiresAt := now' + ttlSeconds } },
       some (lease.renewedFor ttlSeconds (now' + ttlSeconds)))

/-- `release`. -/
def release (lease : Lease) (now : Time) : Memory × ReleaseOutcome :=
  match m.live lease.name now with
  | (m, none) => (m, .expired)
  | (m, some row) =>
    if row.token ≠ lease.token then (m, .notOwner)
    else ({ m with held := m.held.erase lease.name }, .released)

/-- `inspect`. -/
def inspect (name : Text) (now now' : Time) : Memory × Option LockState :=
  match m.live name now with
  | (m, none) => (m, none)
  | (m, some row) =>
    (m, some { name, token := row.token, owner := row.owner,
               ttlSeconds := some (max 0 (row.expiresAt - now')) })

/-- `clear`. -/
def clear : Memory := { m with held := ∅ }

/-- One call, with the two readings of the clock it takes. -/
def serve (now now' : Time) : Call → Memory × Answer
  | .acquire name owner ttlSeconds => m.acquire name owner ttlSeconds now now'
  | .extend lease ttlSeconds => (m.extend lease ttlSeconds now now').map id .extended
  | .release lease => (m.release lease now).map id .released
  | .inspect name => (m.inspect name now now').map id .inspected
  | .clear => (m.clear, .cleared)

/-- The deadline a call writes, if it writes one. -/
def deadline (now' : Time) : Call → Time
  | .acquire _ _ ttlSeconds => now' + ttlSeconds
  | .extend _ ttlSeconds => now' + ttlSeconds
  | _ => now'

/-! ## The callers -/

/-- The backend, the last reading of the clock, and what its callers have been told. -/
structure Sys where
  memory : Memory := {}
  clock : Time := 0
  history : List Exchange := []

inductive Action
  | call (request : Request) (now now' : Time)
  | clear

def Sys.exchange (s : Sys) (call : Call) (now now' : Time) : Sys :=
  let (memory, answer) := s.memory.serve now now' call
  { memory
    clock := now'
    history := s.history ++ [{ call, answer, time := now, deadline := deadline now' call }] }

def Sys.step (s : Sys) : Action → Option Sys
  | .call request now now' =>
    if s.clock ≤ now ∧ now ≤ now' then
      (request.call (issued s.history)).map fun call => s.exchange call now now'
    else none
  | .clear => some (s.exchange .clear s.clock s.clock)

/-! ## What `_live` leaves -/

section Live

variable {m m' : Memory} {name : Text} {now now' : Time} {row : Held}

/-- `m'` is `m` without the claim on `name`, which had run out if there was one. -/
structure Purged (name : Text) (now : Time) (m m' : Memory) : Prop where
  counters : m'.counters = m.counters
  gone : m'.held.lookup name = none
  expired : ∀ row, m.held.lookup name = some row → row.expiresAt ≤ now
  others : ∀ other, other ≠ name → m'.held.lookup other = m.held.lookup other

theorem live_cases (m : Memory) (name : Text) (now : Time) :
    (∃ row, m.held.lookup name = some row ∧ now < row.expiresAt ∧ m.live name now = (m, some row)) ∨
      ∃ m', m.live name now = (m', none) ∧ Purged name now m m' := by
  unfold live
  split
  · rename_i hnone
    refine .inr ⟨m, rfl, rfl, hnone, ?_, fun _ _ => rfl⟩
    intro row hrow
    rw [hnone] at hrow
    cases hrow
  rename_i row hrow
  split
  · rename_i hle
    refine .inr ⟨_, rfl, rfl, lookup_erase .., ?_, fun _ hne => lookup_erase_ne hne⟩
    intro row' hrow'
    rw [hrow] at hrow'
    cases hrow'
    exact hle
  · rename_i hlt
    exact .inl ⟨row, hrow, not_le.mp hlt, rfl⟩

theorem live_snd (m : Memory) (name : Text) (now : Time) :
    (m.live name now).2 = (m.held.lookup name).filter fun row => now < row.expiresAt := by
  unfold live
  cases m.held.lookup name with
  | none => rfl
  | some row =>
    by_cases h : row.expiresAt ≤ now
    · simp [h, Option.filter]
    · simp [h, Option.filter, not_le.mp h]

/-- Nobody who looks from `now` on can tell the two apart. -/
def Unchanged (now : Time) (m m' : Memory) : Prop :=
  m'.counters = m.counters ∧ ∀ name t, now ≤ t → (m'.live name t).2 = (m.live name t).2

theorem Unchanged.refl (now : Time) (m : Memory) : Unchanged now m m := ⟨rfl, fun _ _ _ => rfl⟩

theorem Purged.unchanged (h : Purged name now m m') : Unchanged now m m' := by
  refine ⟨h.counters, fun other t ht => ?_⟩
  rw [live_snd, live_snd]
  by_cases hne : other = name
  · subst hne
    rw [h.gone]
    cases hrow : m.held.lookup other with
    | none => rfl
    | some row => simp [Option.filter, le_trans (h.expired row hrow) ht]
  · rw [h.others other hne]

/-! ## What each call does -/

/-- `acquire` of a valid name that is held answers `None`; of one that is not, it counts and
    writes a claim. -/
theorem acquire_cases (m : Memory) {name : Text} {valid : Text}
    (hvalid : validateLockName name = .ok valid) (owner : Text) (ttlSeconds now now' : Time) :
    (∃ row, m.held.lookup name = some row ∧ now < row.expiresAt ∧
      m.acquire name owner ttlSeconds now now' = (m, .acquired none)) ∨
    ∃ m' token, Purged name now m m' ∧ token = (m.counters.lookup name).getD 0 + 1 ∧
      m.acquire name owner ttlSeconds now now' =
        ({ held := m'.held.insert name { token, owner, expiresAt := now' + ttlSeconds }
           counters := m.counters.insert name token },
         .acquired (some { name, token, owner, ttlSeconds, expiresAt := now' + ttlSeconds })) := by
  rcases m.live_cases name now with ⟨row, hrow, hlt, hlive⟩ | ⟨m', hlive, hp⟩
  · exact .inl ⟨row, hrow, hlt, by simp [acquire, claim, hvalid, hlive]⟩
  · exact .inr ⟨m', _, hp, rfl, by simp [acquire, claim, hvalid, hlive, hp.counters]⟩

/-- What `extend` and `release` go by: a live claim with the lease's token, which the one moves
    the deadline of and the other takes back, a live claim with another token, or none. -/
theorem owner_cases (m : Memory) (lease : Lease) (now : Time) :
    (∃ row, m.held.lookup lease.name = some row ∧ now < row.expiresAt ∧ row.token = lease.token ∧
      (∀ ttlSeconds now', m.extend lease ttlSeconds now now' =
        ({ m with held := m.held.insert lease.name { row with expiresAt := now' + ttlSeconds } },
         some (lease.renewedFor ttlSeconds (now' + ttlSeconds)))) ∧
      m.release lease now = ({ m with held := m.held.erase lease.name }, .released)) ∨
    (∃ row, m.held.lookup lease.name = some row ∧ now < row.expiresAt ∧ row.token ≠ lease.token ∧
      (∀ ttlSeconds now', m.extend lease ttlSeconds now now' = (m, none)) ∧
      m.release lease now = (m, .notOwner)) ∨
    ∃ m', Purged lease.name now m m' ∧
      (∀ ttlSeconds now', m.extend lease ttlSeconds now now' = (m', none)) ∧
      m.release lease now = (m', .expired) := by
  rcases m.live_cases lease.name now with ⟨row, hrow, hlt, hlive⟩ | ⟨m', hlive, hp⟩
  · by_cases htoken : row.token = lease.token
    · exact .inl ⟨row, hrow, hlt, htoken, by simp [extend, hlive, htoken],
        by simp [release, hlive, htoken]⟩
    · exact .inr (.inl ⟨row, hrow, hlt, htoken, by simp [extend, hlive, htoken],
        by simp [release, hlive, htoken]⟩)
  · exact .inr (.inr ⟨m', hp, by simp [extend, hlive], by simp [release, hlive]⟩)

theorem inspect_cases (m : Memory) (name : Text) (now now' : Time) :
    (∃ row, m.held.lookup name = some row ∧ now < row.expiresAt ∧
      m.inspect name now now' =
        (m, some { name, token := row.token, owner := row.owner,
                   ttlSeconds := some (max 0 (row.expiresAt - now')) })) ∨
    ∃ m', Purged name now m m' ∧ m.inspect name now now' = (m', none) := by
  rcases m.live_cases name now with ⟨row, hrow, hlt, hlive⟩ | ⟨m', hlive, hp⟩
  · exact .inl ⟨row, hrow, hlt, by simp [inspect, hlive]⟩
  · exact .inr ⟨m', hp, by simp [inspect, hlive]⟩

end Live

/-! ## The rows and the grants that stand -/

open Fencing (Grant standing granted Lawful Allowed)

section Tied

variable {m m' : Memory} {name : Text} {token : ℤ} {clock now now' : Time} {row : Held}
  {gs : List (Grant Text Time)}

/-- A row is a grant that stands, and a grant that stands and has not run out is a row. -/
structure Tied (clock : Time) (gs : List (Grant Text Time)) (m : Memory) : Prop where
  row : ∀ name row, m.held.lookup name = some row → ⟨name, row.token, row.expiresAt⟩ ∈ gs
  live : ∀ x ∈ gs, clock < x.expires →
    ∃ row, m.held.lookup x.name = some row ∧ row.token = x.token ∧ row.expiresAt = x.expires

theorem Tied.later (h : Tied clock gs m) (hle : clock ≤ now) : Tied now gs m :=
  ⟨h.row, fun x hx hlt => h.live x hx (lt_of_le_of_lt hle hlt)⟩

theorem Tied.purged (h : Tied clock gs m) (hle : clock ≤ now) (hp : Purged name now m m') :
    Tied now gs m' := by
  constructor
  · intro other row hrow
    have hne : other ≠ name := by
      intro he
      rw [he, hp.gone] at hrow
      cases hrow
    rw [hp.others other hne] at hrow
    exact h.row other row hrow
  · intro x hx hlt
    obtain ⟨row, hrow, htoken, hexpires⟩ := h.live x hx (lt_of_le_of_lt hle hlt)
    have hne : x.name ≠ name := by
      intro he
      rw [he] at hrow
      exact absurd (hp.expired row hrow) (not_le.mpr (hexpires ▸ hlt))
    exact ⟨row, (hp.others _ hne).trans hrow, htoken, hexpires⟩

theorem Tied.grant (h : Tied now gs m) (hle : now ≤ now') (hnone : m.held.lookup name = none)
    (owner : Text) (expiresAt : Time) (counters : AList fun _ : Text => ℤ) :
    Tied now' (gs ++ [⟨name, token, expiresAt⟩])
      { held := m.held.insert name { token, owner, expiresAt }, counters } := by
  constructor
  · intro other row hrow
    by_cases hne : other = name
    · subst hne
      rw [show AList.lookup other _ = _ from lookup_insert _] at hrow
      cases hrow
      exact mem_concat_self
    · rw [show AList.lookup other _ = _ from lookup_insert_ne hne] at hrow
      exact mem_append_left _ (h.row other row hrow)
  · intro x hx hlt
    rcases mem_snoc.mp hx with hx | rfl
    · obtain ⟨row, hrow, hfields⟩ := h.live x hx (lt_of_le_of_lt hle hlt)
      have hne : x.name ≠ name := by
        intro he
        rw [he, hnone] at hrow
        cases hrow
      exact ⟨row, (lookup_insert_ne hne).trans hrow, hfields⟩
    · exact ⟨_, lookup_insert _, rfl, rfl⟩

theorem Tied.renew (h : Tied now gs m) (hle : now ≤ now') (hrow : m.held.lookup name = some row)
    (htoken : row.token = token) (expiresAt : Time) :
    Tied now' (Fencing.settle gs (.renew ⟨name, token, expiresAt⟩))
      { m with held := m.held.insert name { row with expiresAt } } := by
  subst htoken
  constructor
  · intro other row' hrow'
    by_cases hne : other = name
    · subst hne
      rw [show AList.lookup other _ = _ from lookup_insert _] at hrow'
      cases hrow'
      exact mem_map.mpr ⟨_, h.row _ row hrow, if_pos ⟨rfl, rfl⟩⟩
    · rw [show AList.lookup other _ = _ from lookup_insert_ne hne] at hrow'
      exact mem_map.mpr ⟨_, h.row other row' hrow', if_neg fun he => hne he.1⟩
  · intro x hx hlt
    obtain ⟨y, hy, rfl⟩ := mem_map.mp hx
    by_cases hother : y.name = name ∧ y.token = row.token
    · rw [if_pos hother]
      exact ⟨_, lookup_insert _, rfl, rfl⟩
    rw [if_neg hother] at hlt ⊢
    obtain ⟨row', hrow', htoken, hexpires⟩ := h.live y hy (lt_of_le_of_lt hle hlt)
    have hne : y.name ≠ name := by
      intro he
      rw [he, hrow] at hrow'
      cases hrow'
      exact hother ⟨he, htoken.symm⟩
    exact ⟨row', (lookup_insert_ne hne).trans hrow', htoken, hexpires⟩

theorem Tied.takeBack (h : Tied now gs m) (hrow : m.held.lookup name = some row)
    (htoken : row.token = token) :
    Tied now (Fencing.settle gs (.takeBack name token))
      { m with held := m.held.erase name } := by
  subst htoken
  constructor
  · intro other row' hrow'
    have hne : other ≠ name := by
      intro he
      rw [he, show AList.lookup name _ = _ from lookup_erase ..] at hrow'
      cases hrow'
    rw [show AList.lookup other _ = _ from lookup_erase_ne hne] at hrow'
    refine mem_filter.mpr ⟨h.row other row' hrow', ?_⟩
    exact decide_eq_true fun he => hne he.1
  · intro x hx hlt
    obtain ⟨hx, hother⟩ := mem_filter.mp hx
    obtain ⟨row', hrow', htoken, hexpires⟩ := h.live x hx hlt
    have hne : x.name ≠ name := by
      intro he
      rw [he, hrow] at hrow'
      cases hrow'
      exact of_decide_eq_true hother ⟨he, htoken.symm⟩
    exact ⟨row', (lookup_erase_ne hne).trans hrow', htoken, hexpires⟩

end Tied

end Memory

end DistributedLock
