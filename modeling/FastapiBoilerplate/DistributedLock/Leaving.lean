import FastapiBoilerplate.DistributedLock.Lock

/-!
# Leaving the block while being cancelled

`__aexit__` and `_stop_renewer` of `src/distributed_lock/lock.py` with the cancellations of the
holder's task that the model of the block leaves out. Cancelling a task that awaits another task
cancels that one and raises `CancelledError` at the await once it has ended. `_stop_renewer`
expects the same exception from the renewer it has just cancelled and drops both.
-/

namespace DistributedLock

open Lib

/-- The awaits of `__aexit__`. -/
inductive Await
  | renewer
  | release
  deriving DecidableEq

/-- How the `async with` statement ends: as `__aexit__` decides, or by a `CancelledError`. -/
inductive Left
  | finished (ending : Ending)
  | cancelled
  deriving DecidableEq

inductive ExitPoint
  | at (await : Await)
  | ended (how : Left)
  deriving DecidableEq

/-- One call of `__aexit__`: whether the renewer's task still runs, where the call is, and at
    which awaits the holder's task has been cancelled. -/
structure Exit where
  running : Bool
  point : ExitPoint
  thrown : List Await := []

/-- `__aexit__` up to its first suspension. A task that has ended is awaited without one. -/
def aexit : Option Renewer → Exit
  | none | some .finished => { running := false, point := .at .release }
  | some _ => { running := true, point := .at .renewer }

inductive ExitAction
  | renewerEnds
  | resume
  | released (outcome : Option ReleaseOutcome)
  | cancel

variable (cfg : Config) (lost failed : Bool) (lease : Lease)

def Exit.step (s : Exit) : ExitAction → Option Exit
  | .renewerEnds => if s.running then some { s with running := false } else none
  -- `except asyncio.CancelledError: pass`, whoever was cancelled
  | .resume =>
    if s.point = .at .renewer ∧ s.running = false then some { s with point := .at .release }
    else none
  | .released outcome =>
    if s.point = .at .release then
      some { s with point := .ended (.finished (Lock.verdict cfg lost failed lease outcome)) }
    else none
  | .cancel =>
    match s.point with
    | .at .renewer => some { s with thrown := s.thrown ++ [.renewer] }
    -- `_release` catches nothing but `LockBackendUnavailableError`
    | .at .release =>
      some { s with point := .ended .cancelled, thrown := s.thrown ++ [.release] }
    | .ended _ => none

/-- A cancelled holder leaves by a `CancelledError` or with the body's own exception, and not
    before its renewer has ended. -/
def Exit.Heard (s : Exit) : Prop :=
  ∀ how, s.point = .ended how → s.thrown ≠ [] →
    (how = .cancelled ∨ how = .finished .bodyRaised) ∧ s.running = false

structure Exit.Inv (s : Exit) : Prop where
  running : s.running = true → s.point = .at .renewer
  thrown : .release ∈ s.thrown ↔ s.point = .ended .cancelled
  ending : ∀ ending, s.point = .ended (.finished ending) → (ending = .bodyRaised ↔ failed = true)

variable {cfg lost failed lease} {s s' : Exit} {a : ExitAction}

theorem Lock.verdict_eq_bodyRaised {outcome : Option ReleaseOutcome} :
    Lock.verdict cfg lost failed lease outcome = .bodyRaised ↔ failed = true := by
  cases failed with
  | false =>
    simp only [Lock.verdict, Bool.false_eq_true, ↓reduceIte, iff_false]
    split <;> nofun
  | true => simp [Lock.verdict]

theorem Exit.Inv.aexit (renewer : Option Renewer) : (aexit renewer).Inv failed := by
  unfold DistributedLock.aexit
  split <;> exact ⟨by simp, by simp, by simp⟩

theorem Exit.Inv.step (h : s.Inv failed) (hstep : s.step cfg lost failed lease a = some s') :
    s'.Inv failed := by
  cases a with simp only [Exit.step] at hstep
  | renewerEnds =>
    split at hstep <;> cases hstep
    exact ⟨nofun, h.thrown, h.ending⟩
  | resume =>
    split at hstep <;> cases hstep
    rename_i hpoint
    have hrelease := mt h.thrown.mp (by simp [hpoint.1])
    exact ⟨by simp [hpoint.2], by simp [hrelease], nofun⟩
  | released =>
    split at hstep <;> cases hstep
    rename_i hpoint
    have hrunning := mt h.running (by simp [hpoint])
    have hrelease := mt h.thrown.mp (by simp [hpoint])
    refine ⟨fun e => absurd e hrunning, by simp [hrelease], ?_⟩
    rintro ending ⟨⟩
    exact Lock.verdict_eq_bodyRaised
  | cancel =>
    split at hstep <;> cases hstep <;> rename_i hpoint
    · have hrelease := mt h.thrown.mp (by simp [hpoint])
      exact ⟨fun _ => hpoint, by simp [hrelease, hpoint], by simp [hpoint]⟩
    · have hrunning := mt h.running (by simp [hpoint])
      exact ⟨fun e => absurd e hrunning, by simp, nofun⟩

/-- Once the renewer ends and the store answers, or fails, the call is over. -/
theorem Exit.ends (s : Exit) :
    ∃ t how, Run (Exit.step cfg lost failed lease) Always s t ∧ t.point = .ended how := by
  have hrelease (running : Bool) (thrown : List Await) : ∃ t how,
      Run (Exit.step cfg lost failed lease) Always ⟨running, .at .release, thrown⟩ t ∧
      t.point = .ended how :=
    ⟨_, _, .single (a := .released none) trivial rfl, rfl⟩
  have hrenewer (thrown : List Await) : ∃ t how,
      Run (Exit.step cfg lost failed lease) Always ⟨false, .at .renewer, thrown⟩ t ∧
      t.point = .ended how := by
    obtain ⟨t, how, hrun, hend⟩ := hrelease false thrown
    exact ⟨t, how, (Run.single (a := .resume) trivial rfl).trans hrun, hend⟩
  match s with
  | ⟨_, .ended how, _⟩ => exact ⟨_, how, .refl, rfl⟩
  | ⟨running, .at .release, thrown⟩ => exact hrelease running thrown
  | ⟨false, .at .renewer, thrown⟩ => exact hrenewer thrown
  | ⟨true, .at .renewer, thrown⟩ =>
    obtain ⟨t, how, hrun, hend⟩ := hrenewer thrown
    exact ⟨t, how, (Run.single (a := .renewerEnds) trivial rfl).trans hrun, hend⟩

/-- A call of `__aexit__` can always be completed, and it keeps the cancellations of its task
    exactly when one that came while it waited for the renewer is not the last word: the body
    had failed, or the task is cancelled again at the release. -/
theorem heard_iff_release {renewer : Option Renewer}
    (h : Run (Exit.step cfg lost failed lease) Always (aexit renewer) s) :
    (∃ t how, Run (Exit.step cfg lost failed lease) Always s t ∧ t.point = .ended how) ∧
      (s.Heard ↔ ∀ how, s.point = .ended how → .renewer ∈ s.thrown →
        failed = true ∨ .release ∈ s.thrown) := by
  have hinv : s.Inv failed := h.invariant (fun hs _ => hs.step) (.aexit renewer)
  refine ⟨s.ends, fun hheard how hend hthrown => ?_, fun hcond how hend hthrown => ?_⟩
  · obtain ⟨hhow, -⟩ := hheard how hend (List.ne_nil_of_mem hthrown)
    rcases hhow with rfl | rfl
    · exact .inr (hinv.thrown.mpr hend)
    · exact .inl ((hinv.ending _ hend).mp rfl)
  refine ⟨?_, Bool.eq_false_iff.mpr (mt hinv.running (by simp [hend]))⟩
  cases how with
  | cancelled => exact .inl rfl
  | finished =>
    have hrelease := mt hinv.thrown.mp (by simp [hend])
    obtain ⟨await, hawait⟩ := List.exists_mem_of_ne_nil _ hthrown
    cases await with
    | release => exact absurd hawait hrelease
    | renewer =>
      have hfailed := (hcond _ hend hawait).resolve_right hrelease
      exact .inr (congrArg _ ((hinv.ending _ hend).mpr hfailed))

/-- Cancelled while its renewer sleeps and is stopped, the holder returns as if nothing had
    happened. -/
theorem cancelled_holder_returns :
    ∃ s, Run (Exit.step ⟨lit "job", lit "a", 30, 0, some 10⟩ false false
        ⟨lit "job", 1, lit "a", 30, 30⟩) Always (aexit (some .sleeping)) s ∧
      s.thrown = [.renewer] ∧ s.point = .ended (.finished .returned) :=
  Run.exists_of_replay [.cancel, .renewerEnds, .resume, .released (some .released)]
    (by decide +kernel)

theorem heard_iff_release_cancelled_again :
    ∃ s, Run (Exit.step ⟨lit "job", lit "a", 30, 0, some 10⟩ false false
        ⟨lit "job", 1, lit "a", 30, 30⟩) Always (aexit (some .sleeping)) s ∧
      (s.thrown = [.renewer, .release] ∧ s.point = .ended .cancelled) ∧ s.Heard :=
  Run.exists_of_replay_and [.cancel, .renewerEnds, .resume, .cancel] (by decide +kernel)
    fun hrun hs => (heard_iff_release hrun).2.mpr fun _ _ _ => .inr (by simp [hs.1])

end DistributedLock
