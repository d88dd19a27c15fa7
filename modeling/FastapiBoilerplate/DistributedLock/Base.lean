import Mathlib.Algebra.Order.Ring.Rat
import FastapiBoilerplate.Lib.Fencing
import FastapiBoilerplate.Lib.Text

/-!
# Lock names, leases and what a backend is asked

`src/distributed_lock/base.py`: the lease, the three outcomes of a release, the check on a name,
and the four questions of the `LockBackend` protocol. A call and its answer make an `Exchange`;
what the callers of a backend have been told so far is a list of them, its history, and nothing
about a lock that matters to its callers is anywhere else. `Exchange.event` forgets everything
but grants, renewals and take-backs.

Seconds are rationals. The deadline of an exchange is the store's own: the reading from which
the store takes the claim it wrote for expired, which the `expires_at` of the lease may precede.
-/

namespace DistributedLock

open Lib List

abbrev Time := ℚ

def MAX_NAME_LENGTH : ℕ := 255

/-- `LockNameInvalidError`, with its message. -/
structure LockNameInvalidError where
  message : Text
  deriving DecidableEq

/-- `[\x21-\x7e]`. -/
def printable (c : CodePoint) : Bool := 0x21 ≤ c.val && c.val ≤ 0x7e

/-- `_NAME_RE.match(name)`. The `$` of the pattern also matches before a final newline. -/
def nameRe (name : Text) : Bool :=
  let body := if name.getLast? = some 0x0a then name.dropLast else name
  !body.isEmpty && body.all printable

/-- `validate_lock_name`. -/
def validateLockName (name : Text) : Except LockNameInvalidError Text :=
  if name.isEmpty then .error ⟨lit "Lock name must not be empty."⟩
  else if MAX_NAME_LENGTH < name.length then
    .error ⟨lit "Lock name must be at most " ++ decimal MAX_NAME_LENGTH ++
      lit " characters, got " ++ decimal name.length ++ lit "."⟩
  else if !nameRe name then
    .error ⟨lit "Lock name must contain only printable, non-space ASCII."⟩
  else .ok name

inductive ReleaseOutcome
  | released
  | expired
  | notOwner
  deriving DecidableEq

/-- `Lease`. -/
structure Lease where
  name : Text
  token : ℤ
  owner : Text
  ttlSeconds : Time
  expiresAt : Time
  deriving DecidableEq

/-- `Lease.renewed_for`. -/
def Lease.renewedFor (lease : Lease) (ttlSeconds expiresAt : Time) : Lease :=
  { lease with ttlSeconds, expiresAt }

/-- `LockState`. -/
structure LockState where
  name : Text
  token : ℤ
  owner : Text
  ttlSeconds : Option Time
  deriving DecidableEq

/-! ## Calls and answers -/

/-- The questions of `LockBackend`, and the in-memory backend's `clear`. -/
inductive Call
  | acquire (name owner : Text) (ttlSeconds : Time)
  | extend (lease : Lease) (ttlSeconds : Time)
  | release (lease : Lease)
  | inspect (name : Text)
  | clear
  deriving DecidableEq

/-- The name a call is about. -/
def Call.name : Call → Text
  | .acquire name _ _ => name
  | .extend lease _ => lease.name
  | .release lease => lease.name
  | .inspect name => name
  | .clear => []

inductive Answer
  | invalid (error : LockNameInvalidError)
  | acquired (lease : Option Lease)
  | extended (lease : Option Lease)
  | released (outcome : ReleaseOutcome)
  | inspected (state : Option LockState)
  | cleared
  deriving DecidableEq

/-- The lease an answer carries. -/
def Answer.lease : Answer → Option Lease
  | .acquired lease => lease
  | .extended lease => lease
  | _ => none

structure Exchange where
  call : Call
  answer : Answer
  time : Time
  deadline : Time
  deriving DecidableEq

/-- The leases handed out, in order. -/
def issued (history : List Exchange) : List Lease := history.filterMap fun x => x.answer.lease

/-- What an exchange did to a lease. -/
def act (deadline : Time) : Call → Answer → Fencing.Act Text Time
  | _, .acquired (some lease) => .grant ⟨lease.name, lease.token, deadline⟩
  | _, .extended (some lease) => .renew ⟨lease.name, lease.token, deadline⟩
  | .release lease, .released .released => .takeBack lease.name lease.token
  | _, .cleared => .dropAll
  | _, _ => .nothing

def Exchange.event (x : Exchange) : Fencing.Event Text Time :=
  ⟨x.time, act x.deadline x.call x.answer⟩

def events (history : List Exchange) : List (Fencing.Event Text Time) :=
  history.map Exchange.event

theorem events_snoc (history : List Exchange) (x : Exchange) :
    events (history ++ [x]) = events history ++ [x.event] := by
  simp [events]

/-- The lease an exchange acquired. -/
def Exchange.acquired (x : Exchange) : Option Lease :=
  match x.answer with
  | .acquired lease => lease
  | _ => none

/-- The leases of `name` acquired so far, in order. -/
def acquisitions (history : List Exchange) (name : Text) : List Lease :=
  (history.filterMap Exchange.acquired).filter fun lease => lease.name = name

theorem act_acquired (deadline : Time) (call : Call) (lease : Lease) :
    act deadline call (.acquired (some lease)) = .grant ⟨lease.name, lease.token, deadline⟩ := by
  cases call <;> rfl

theorem act_extended (deadline : Time) (call : Call) (lease : Lease) :
    act deadline call (.extended (some lease)) = .renew ⟨lease.name, lease.token, deadline⟩ := by
  cases call <;> rfl

theorem Exchange.event_of_acquired {x : Exchange} {lease : Lease} (h : x.acquired = some lease) :
    x.event = ⟨x.time, .grant ⟨lease.name, lease.token, x.deadline⟩⟩ := by
  unfold Exchange.acquired at h
  split at h
  · rename_i ha
    rw [Exchange.event, ha, h, act_acquired]
  · cases h

theorem granted_event (x : Exchange) :
    x.event.act.granted = x.acquired.map fun lease => ⟨lease.name, lease.token, x.deadline⟩ := by
  obtain ⟨call, answer, time, deadline⟩ := x
  rcases answer with _ | _ | _ | _ | _ | _
  case acquired lease =>
    cases lease with
    | none => cases call <;> rfl
    | some lease => exact congrArg Fencing.Act.granted (act_acquired deadline call lease)
  case extended lease =>
    cases lease with
    | none => cases call <;> rfl
    | some lease => exact congrArg Fencing.Act.granted (act_extended deadline call lease)
  case released outcome => cases call <;> cases outcome <;> rfl
  all_goals cases call <;> rfl

variable {history : List Exchange}

/-- In a lawful history the tokens of a name's acquisitions increase. -/
theorem tokens_increase (h : Fencing.Lawful (events history)) (name : Text) :
    (acquisitions history name).Pairwise fun l l' => l.token < l'.token := by
  have hall : (history.filterMap Exchange.acquired).Pairwise fun l l' =>
      l.name = l'.name → l.token < l'.token := by
    have htokens := h.tokens
    rw [Fencing.granted, events, filterMap_map, pairwise_filterMap] at htokens
    refine pairwise_filterMap.mpr (htokens.imp ?_)
    intro x y hxy l hl l' hl' hname
    refine hxy ⟨l.name, l.token, x.deadline⟩ ?_ ⟨l'.name, l'.token, y.deadline⟩ ?_ hname
    · exact (granted_event x).trans (by rw [hl]; rfl)
    · exact (granted_event y).trans (by rw [hl']; rfl)
  refine List.Pairwise.imp_of_mem ?_ (hall.filter _)
  intro l l' hl hl' hlt
  have hname := of_decide_eq_true (mem_filter.mp hl).2
  have hname' := of_decide_eq_true (mem_filter.mp hl').2
  exact hlt (hname.trans hname'.symm)

/-- A lease that was handed out was acquired, whether it is the acquired object or a renewed
    one. -/
theorem exists_acquired (h : Fencing.Lawful (events history)) {lease : Lease}
    (hlease : lease ∈ issued history) :
    ∃ before x after, history = before ++ x :: after ∧
      ∃ first, x.acquired = some first ∧ first.name = lease.name ∧ first.token = lease.token := by
  obtain ⟨x, hx, hanswer⟩ := mem_filterMap.mp hlease
  obtain ⟨before, after, rfl⟩ := append_of_mem hx
  cases ha : x.answer with
  | acquired =>
    rw [ha] at hanswer
    exact ⟨before, x, after, rfl, lease, by rw [Exchange.acquired, ha]; exact hanswer, rfl, rfl⟩
  | extended l =>
    rw [ha] at hanswer
    obtain rfl : l = some lease := hanswer
    -- a renewal is of a lease that stands, and what stands was granted
    have hsplit : Fencing.Lawful (events before ++ x.event :: events after) := by
      simpa [events] using h
    have hallowed := hsplit.allowed
    have hact : x.event.act = .renew ⟨lease.name, lease.token, x.deadline⟩ := by
      rw [Exchange.event, ha, act_extended]
    obtain ⟨y, hy, hname, htoken, -⟩ := hallowed.renewed _ hact
    obtain ⟨g, hg, hgname, hgtoken⟩ := Fencing.exists_granted hy
    obtain ⟨e, he, hgrant⟩ := mem_filterMap.mp hg
    obtain ⟨z, hz, rfl⟩ := mem_map.mp he
    rw [granted_event] at hgrant
    obtain ⟨first, hfirst, rfl⟩ := Option.map_eq_some_iff.mp hgrant
    obtain ⟨before', after', rfl⟩ := append_of_mem hz
    exact ⟨before', z, after' ++ x :: after, by simp, first, hfirst, hgname.trans hname,
      hgtoken.trans htoken⟩
  | _ =>
    rw [ha] at hanswer
    cases hanswer

/-- What a caller asks for. Leases are named by their place among those handed out so far: a
    caller may hold on to any of them for as long as it likes. -/
inductive Request
  | acquire (name owner : Text) (ttlSeconds : Time)
  | extend (lease : ℕ) (ttlSeconds : Time)
  | release (lease : ℕ)
  | inspect (name : Text)

def Request.call (leases : List Lease) : Request → Option Call
  | .acquire name owner ttlSeconds => some (.acquire name owner ttlSeconds)
  | .extend i ttlSeconds => leases[i]?.map fun lease => .extend lease ttlSeconds
  | .release i => leases[i]?.map .release
  | .inspect name => some (.inspect name)

end DistributedLock
