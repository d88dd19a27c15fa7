import FastapiBoilerplate.Lib.Lists
import FastapiBoilerplate.Lib.Run
import Mathlib.Algebra.Order.Ring.Rat

/-!
# Health probing is coalesced, and when an invalidation is honoured

`report` runs the checks under a lock, once for all who wait, and keeps the result for a TTL.
`invalidate` takes no lock and drops what is cached: a run that has begun is cached after it. And
when the caller of a run is cancelled, `gather` cancels the probes and is done when the first of
them ends so, not the last. The caller is woken in a later pass of the event loop, by which the
others have ended too unless one of them has more to do; such a probe outlives its run's lock.
-/

open Lib

namespace Health

/-- What `gather` waits for: its probes; its probes, which have been cancelled with the caller; or
    nothing any more, as one of those ended by its cancellation. -/
inductive Gather
  | pending
  | cancelled
  | done
  deriving DecidableEq

def Gather.cancel : Gather → Gather
  | .done => .done
  | _ => .cancelled

/-- Where a call of `report` stands. A run's results go by its number. -/
inductive Phase
  /-- at the lock -/
  | waiting
  /-- under the lock, in `_run_all`, with the number of probes that have not ended -/
  | running (run left : ℕ) (gather : Gather)
  | returned (run : ℕ)
  | cancelled
  deriving DecidableEq

/-- A call, with the number of runs begun when `invalidate` last returned before it. -/
structure Call where
  since : ℕ
  phase : Phase
  deriving DecidableEq

/-- The start of a run, with the time the last run to finish did if no `invalidate` came since. -/
structure Start where
  time : ℚ
  finished : Option ℚ

structure Sys where
  cached : Option (ℚ × ℕ) := none
  /-- the call that has the lock -/
  lock : Option ℕ := none
  calls : List Call := []
  runs : ℕ := 0
  /-- for each probe that outlived its call, the run -/
  orphans : List ℕ := []
  invalidatedAt : ℕ := 0
  finished : Option ℚ := none
  starts : List Start := []

/-- `_fresh_report`. -/
def Sys.freshReport (s : Sys) (ttl now : ℚ) : Option ℕ :=
  match s.cached with
  | none => none
  | some (cachedAt, report) => if now - cachedAt ≥ ttl then none else some report

inductive Action
  /-- `report` up to the lock -/
  | report (now : ℚ)
  /-- the lock is free and goes to a call -/
  | locked (i : ℕ) (now : ℚ)
  | probeEnds (i : ℕ)
  /-- a probe ends by the cancellation that `gather` passed on -/
  | probeCancelled (i : ℕ)
  /-- `gather` is done, the caller goes on -/
  | gathered (i : ℕ) (now : ℚ)
  | cancel (i : ℕ)
  | orphanEnds (run : ℕ)
  | invalidate

def Sys.step (checks : ℕ) (ttl : ℚ) (s : Sys) : Action → Option Sys
  | .report now =>
    let phase := match s.freshReport ttl now with
      | some run => .returned run
      | none => .waiting
    some { s with calls := s.calls ++ [⟨s.invalidatedAt, phase⟩] }
  | .locked i now =>
    match s.lock, s.calls[i]? with
    | none, some ⟨since, .waiting⟩ =>
      match s.freshReport ttl now with
      | some run => some { s with calls := s.calls.set i ⟨since, .returned run⟩ }
      | none =>
        some { s with
          calls := s.calls.set i ⟨since, .running s.runs checks .pending⟩, lock := some i
          runs := s.runs + 1, starts := s.starts ++ [⟨now, s.finished⟩] }
    | _, _ => none
  | .probeEnds i =>
    match s.calls[i]? with
    | some ⟨since, .running run (left + 1) gather⟩ =>
      some { s with calls := s.calls.set i ⟨since, .running run left gather⟩ }
    | _ => none
  | .probeCancelled i =>
    match s.calls[i]? with
    | some ⟨since, .running run (left + 1) gather⟩ =>
      if gather = .pending then none
      else some { s with calls := s.calls.set i ⟨since, .running run left .done⟩ }
    | _ => none
  | .gathered i now =>
    match s.calls[i]? with
    | some ⟨since, .running run 0 .pending⟩ =>
      some { s with
        calls := s.calls.set i ⟨since, .returned run⟩, lock := none
        cached := some (now, run), finished := some now }
    | some ⟨since, .running _ 0 .cancelled⟩ =>
      some { s with calls := s.calls.set i ⟨since, .cancelled⟩, lock := none }
    | some ⟨since, .running run left .done⟩ =>
      some { s with
        calls := s.calls.set i ⟨since, .cancelled⟩, lock := none
        orphans := s.orphans ++ List.replicate left run }
    | _ => none
  | .cancel i =>
    match s.calls[i]? with
    | some ⟨since, .waiting⟩ => some { s with calls := s.calls.set i ⟨since, .cancelled⟩ }
    | some ⟨since, .running run left gather⟩ =>
      some { s with calls := s.calls.set i ⟨since, .running run left gather.cancel⟩ }
    | _ => none
  | .orphanEnds run =>
    if run ∈ s.orphans then some { s with orphans := s.orphans.erase run } else none
  | .invalidate =>
    some { s with cached := none, invalidatedAt := s.runs, finished := none }

def Sys.InProgress (s : Sys) (run : ℕ) : Prop :=
  run ∈ s.orphans ∨ ∃ since left gather, ⟨since, .running run left gather⟩ ∈ s.calls

/-- No `invalidate` comes while somebody runs the checks, and who leaves the lock, cancelled or
    not, leaves no probe behind. -/
def Sys.orderly (s : Sys) : Action → Bool
  | .invalidate => s.lock.isNone
  | .gathered i _ =>
    match s.calls[i]? with
    | some ⟨_, .running _ left _⟩ => left = 0
    | _ => true
  | _ => true

variable {lock lock' : Option ℕ} {floor i since : ℕ} {calls : List Call} {p q : Phase}

/-- Only who has the lock runs the checks, and every result is of a run since the invalidation
    that its call, and that everybody (`floor`), saw last. -/
structure Fits (lock : Option ℕ) (floor : ℕ) (calls : List Call) : Prop where
  running : ∀ i since run left gather,
    calls[i]? = some ⟨since, .running run left gather⟩ → lock = some i ∧ floor ≤ run
  since : ∀ call ∈ calls, call.since ≤ floor
  returned : ∀ call ∈ calls, ∀ run, call.phase = .returned run → call.since ≤ run

theorem Fits.set (h : Fits lock floor calls) (hi : calls[i]? = some ⟨since, p⟩)
    (hlock : lock' = lock ∨ lock = none ∨ lock = some i)
    (hrunning : ∀ run left gather, q = .running run left gather → lock' = some i ∧ floor ≤ run)
    (hreturned : ∀ run, q = .returned run → floor ≤ run) :
    Fits lock' floor (calls.set i ⟨since, q⟩) where
  running j since' run left gather hj := by
    rcases getElem?_set_cases hj with ⟨rfl, hcall⟩ | ⟨hne, hold⟩
    · cases hcall
      exact hrunning run left gather rfl
    · obtain ⟨hheld, hfloor⟩ := h.running j since' run left gather hold
      rcases hlock with rfl | hfree | hmine
      · exact ⟨hheld, hfloor⟩
      · cases hfree.symm.trans hheld
      · exact absurd (Option.some.inj (hheld.symm.trans hmine)) hne
  since := forall_mem_set h.since (h.since ⟨since, p⟩ (List.mem_of_getElem? hi))
  returned := forall_mem_set h.returned fun run hrun =>
    (h.since ⟨since, p⟩ (List.mem_of_getElem? hi)).trans (hreturned run hrun)

structure Inv (ttl : ℚ) (s : Sys) : Prop where
  fits : Fits s.lock s.invalidatedAt s.calls
  orphans : s.orphans = []
  begun : s.invalidatedAt ≤ s.runs
  cached : ∀ cachedAt run, s.cached = some (cachedAt, run) → s.invalidatedAt ≤ run
  finished : s.finished = s.cached.map (·.1)
  starts : ∀ start ∈ s.starts, ∀ t, start.finished = some t → ttl ≤ start.time - t

variable {checks run : ℕ} {ttl now : ℚ} {s s' : Sys} {a : Action}

theorem Inv.fresh (h : Inv ttl s) (hfresh : s.freshReport ttl now = some run) :
    s.invalidatedAt ≤ run := by
  unfold Sys.freshReport at hfresh
  split at hfresh
  · cases hfresh
  · next cachedAt report hcached =>
    split at hfresh <;> cases hfresh
    exact h.cached cachedAt _ hcached

/-- Where nothing is fresh, the run that finished last did so a TTL ago. -/
theorem Inv.due (h : Inv ttl s) (hfresh : s.freshReport ttl now = none) {t : ℚ}
    (ht : s.finished = some t) : ttl ≤ now - t := by
  rw [h.finished] at ht
  obtain ⟨⟨cachedAt, report⟩, hcached, rfl⟩ := Option.map_eq_some_iff.mp ht
  simp only [Sys.freshReport, hcached] at hfresh
  split at hfresh
  · assumption
  · cases hfresh

/-- A run goes on. -/
theorem Inv.onward (h : Inv ttl s) {left left' : ℕ} {gather gather' : Gather}
    (hi : s.calls[i]? = some ⟨since, .running run left gather⟩) :
    Inv ttl { s with calls := s.calls.set i ⟨since, .running run left' gather'⟩ } := by
  refine { h with fits := h.fits.set hi (.inl rfl) ?_ nofun }
  rintro _ _ _ ⟨⟩
  exact h.fits.running i _ _ _ _ hi

theorem Inv.step (h : Inv ttl s) (hok : s.orderly a = true)
    (hstep : s.step checks ttl a = some s') : Inv ttl s' := by
  cases a with simp only [Sys.step] at hstep
  | report =>
    cases hstep
    refine { h with fits := ⟨?_, ?_, ?_⟩ }
    · intro j since run left gather hj
      rcases getElem?_append_cases hj with ⟨-, hcall⟩ | ⟨-, hold⟩
      · split at hcall <;> cases hcall
      · exact h.fits.running j since run left gather hold
    · exact forall_mem_snoc h.fits.since (Nat.le_refl _)
    · refine forall_mem_snoc h.fits.returned fun run hrun => ?_
      split at hrun <;> cases hrun
      exact h.fresh ‹_›
  | locked =>
    split at hstep <;> [skip; cases hstep]
    rename_i since hfree hi
    split at hstep <;> cases hstep <;> rename_i hfresh
    · refine { h with fits := h.fits.set hi (.inl rfl) nofun ?_ }
      rintro run ⟨⟩
      exact h.fresh hfresh
    · refine { h with
        fits := h.fits.set hi (.inr (.inl hfree)) ?_ nofun
        begun := Nat.le_succ_of_le h.begun
        starts := forall_mem_snoc h.starts fun t ht => h.due hfresh ht }
      rintro run left gather ⟨⟩
      exact ⟨rfl, h.begun⟩
  | probeEnds =>
    split at hstep <;> cases hstep
    exact h.onward ‹_›
  | probeCancelled =>
    split at hstep <;> [skip; cases hstep]
    rename_i hi
    split at hstep <;> cases hstep
    exact h.onward hi
  | gathered i =>
    split at hstep <;> cases hstep <;> rename_i hi
    · obtain ⟨hmine, hrun⟩ := h.fits.running i _ _ _ _ hi
      refine { h with
        fits := h.fits.set hi (.inr (.inr hmine)) nofun ?_, cached := ?_, finished := rfl }
      · rintro _ ⟨⟩
        exact hrun
      · rintro _ _ ⟨⟩
        exact hrun
    · have hmine := (h.fits.running i _ _ _ _ hi).1
      exact { h with fits := h.fits.set hi (.inr (.inr hmine)) nofun nofun }
    · have hmine := (h.fits.running i _ _ _ _ hi).1
      rename_i left
      -- by the guard no probe is left behind
      obtain rfl : left = 0 := by simpa [Sys.orderly, hi] using hok
      exact { h with
        fits := h.fits.set hi (.inr (.inr hmine)) nofun nofun
        orphans := by rw [h.orphans]; rfl }
  | cancel =>
    split at hstep <;> cases hstep <;> rename_i hi
    · exact { h with fits := h.fits.set hi (.inl rfl) nofun nofun }
    · exact h.onward hi
  | orphanEnds =>
    rw [h.orphans, if_neg List.not_mem_nil] at hstep
    cases hstep
  | invalidate =>
    cases hstep
    have hfree : s.lock = none := by simpa [Sys.orderly] using hok
    refine ⟨⟨?_, ?_, h.fits.returned⟩, h.orphans, Nat.le_refl _, nofun, rfl, h.starts⟩
    · intro j since run left gather hj
      cases hfree.symm.trans (h.fits.running j since run left gather hj).1
    · exact fun call hcall => (h.fits.since call hcall).trans h.begun

/-- **Probing is coalesced and invalidation is honoured**, for any number of checks and any
    interleaving of calls, cancellations and invalidations, as long as no invalidation comes
    while the checks are run and no probe outlives the cancelled call it was for: at most one run
    is in progress, none begins within the TTL of the one that finished last unless the cache was
    invalidated since, and no call returns the results of a run that began before an invalidation
    that the call began after. -/
theorem coalesced_of_orderly (checks : ℕ) (ttl : ℚ)
    (hrun : Run (Sys.step checks ttl) (fun s a => s.orderly a = true) {} s) :
    (∀ run run', s.InProgress run → s.InProgress run' → run = run') ∧
    (∀ start ∈ s.starts, ∀ t, start.finished = some t → ttl ≤ start.time - t) ∧
    ∀ call ∈ s.calls, ∀ run, call.phase = .returned run → call.since ≤ run := by
  have hinit : Inv ttl {} :=
    ⟨⟨nofun, nofun, nofun⟩, rfl, Nat.le_refl 0, nofun, rfl, nofun⟩
  have h := hrun.invariant Inv.step hinit
  refine ⟨?_, h.starts, h.fits.returned⟩
  have hholder : ∀ run, s.InProgress run → ∃ i since left gather, s.lock = some i ∧
      s.calls[i]? = some ⟨since, .running run left gather⟩ := by
    rintro run (horphan | ⟨since, left, gather, hmem⟩)
    · rw [h.orphans] at horphan
      cases horphan
    · obtain ⟨i, hi⟩ := List.getElem?_of_mem hmem
      exact ⟨i, since, left, gather, (h.fits.running i _ _ _ _ hi).1, hi⟩
  intro run run' hrun hrun'
  obtain ⟨i, _, _, _, hlock, hi⟩ := hholder run hrun
  obtain ⟨j, _, _, _, hlock', hj⟩ := hholder run' hrun'
  cases hlock.symm.trans hlock'
  cases hi.symm.trans hj
  rfl

/-- A run begun before the invalidation is cached after it, and answers a call that came later;
    and a second run begins beside a probe of the first, whose caller was cancelled. -/
theorem run_outlives_invalidation :
    (∃ s, Run (Sys.step 1 1) Always {} s ∧ s.calls[1]? = some ⟨1, .returned 0⟩) ∧
    ∃ s, Run (Sys.step 2 1) Always {} s ∧ s.orphans = [0] ∧
      s.calls[1]? = some ⟨0, .running 1 2 .pending⟩ := by
  constructor
  · exact Run.exists_of_replay
      [.report 0, .locked 0 0, .invalidate, .probeEnds 0, .gathered 0 0, .report (1 / 2)]
      (by decide +kernel)
  · exact Run.exists_of_replay
      [.report 0, .locked 0 0, .cancel 0, .probeCancelled 0, .gathered 0 0, .report 0, .locked 1 0]
      (by decide +kernel)

/-- Two calls with an invalidation between their runs, within the TTL. -/
theorem coalesced_of_orderly_twice :
    ∃ s, Run (Sys.step 1 1) (fun s a => s.orderly a = true) {} s ∧
      s.calls = [⟨0, .returned 0⟩, ⟨1, .returned 1⟩] ∧
      ∀ call ∈ s.calls, ∀ run, call.phase = .returned run → call.since ≤ run := by
  refine Run.exists_of_replay_and
    [.report 0, .locked 0 0, .probeEnds 0, .gathered 0 0, .invalidate, .report 0, .locked 1 0,
     .probeEnds 1, .gathered 1 0] ?_ fun hrun _ => (coalesced_of_orderly 1 1 hrun).2.2
  decide +kernel

end Health
