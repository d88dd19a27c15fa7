import FastapiBoilerplate.Idempotency.Middleware
import FastapiBoilerplate.Lib.Run

/-!
# Cancelled executions

`__call__` and `_execute` of `src/middleware/idempotency.py` with `finalize` and `_drain` of
`src/structured/cancel.py`, for one request and the entry under its storage key, at the grain of
their awaits: a `Point` is an await of the middleware's own code. A cancellation is the
`CancelledError` that the await raises. While the app runs it is raised in the app, which ends as it
likes; while `_drain` waits it is put off, and the release goes on in a task of its own.

A store call takes effect at the store and is answered afterwards. Cancelled before its effect it
has none; cancelled between the two, the effect stays and the answer is lost. The entry is changed
by this request only: nobody else's `reserve` succeeds while it is there, as long as the reservation
does not lapse.

The reservation of an execution is resolved if and only if no cancellation came between the effect
and the answer of `reserve`, none came after the app had returned and before the effect of the store
call that ends the ordinary path, and the release of the exceptional path took effect within its
five seconds (`resolved_iff`).
-/

namespace Idempotency

open Lib

/-! ## One execution -/

/-- How far a store call is. -/
inductive Effect
  | issued
  | applied
  deriving DecidableEq

/-- How `__call__` ended. -/
inductive Ending
  | returned
  /-- The app's exception; with a cancellation that `finalize` re-armed, or without. -/
  | raised (rearmed : Bool)
  | cancelled
  deriving DecidableEq

namespace Execution

/-- The await at which the task is suspended. -/
inductive Point
  /-- `receive`, in `_buffer_request`. -/
  | buffering
  /-- `store.reserve`; once it has taken effect, with its answer. -/
  | reserving (answer : Option (Option IdempotencyRecord))
  /-- A `send` of `_handle_existing` or `_send_error`. -/
  | answering (answer : Answer)
  /-- The app, without protection: the store failed open. -/
  | unprotected
  | running
  /-- `_release` or `store.complete`, after the app returned. -/
  | settling (effect : Effect)
  /-- `asyncio.wait` in `_drain`, until `expiresAt`. -/
  | draining (effect : Effect) (expiresAt : Time) (deferred : Bool)
  /-- `asyncio.gather` in `_drain`, after the release was cancelled. -/
  | reaping (deferred : Bool)
  | ended (ending : Ending)
  deriving DecidableEq

end Execution

/-- A request's execution, and the entry under its storage key. `capture` is `_execute`'s local
    variables. `reserved` says that the entry was written by this execution; nothing reads it. -/
structure Execution where
  point : Execution.Point := .buffering
  entry : Option IdempotencyRecord := none
  capture : Capture := {}
  reserved : Bool := false
  clock : Time := 0

/-- `RELEASE_TIMEOUT_SECONDS`. -/
def releaseTimeoutSeconds : Time := 5

/-- The entry that a store operation leaves. -/
def StoreOp.entry : StoreOp → Option IdempotencyRecord
  | .release => none
  | .complete record => some record

namespace Execution

inductive Event
  | tick (now : Time)
  /-- The body is complete. -/
  | buffered
  /-- The store call takes effect. -/
  | apply
  /-- The store call is answered. -/
  | reply
  /-- The store call raises `IdempotencyStoreUnavailableError`. -/
  | fail (exc : AppException)
  | send (message : Message)
  | appReturns
  /-- The app raises, `CancelledError` included. -/
  | appRaises
  /-- The last message has been sent. -/
  | sent
  /-- The budget of the release has run out. -/
  | timeout
  /-- The cancelled release has ended. -/
  | reaped
  /-- `CancelledError` is raised at the await. -/
  | cancel

variable (cfg : IdempotencyConfig) (r : Request) (s : Execution)

/-- `store.reserve`, at the store. -/
def reserve : Execution :=
  match s.entry with
  | some existing => { s with point := .reserving (some (some existing)) }
  | none =>
    { s with point := .reserving (some none), entry := some r.reservation, reserved := true }

def apply : Option Execution :=
  match s.point with
  | .reserving none => some (s.reserve r)
  | .settling .issued =>
    some { s with point := .settling .applied, entry := (s.capture.outcome r.fingerprint).entry }
  | .draining .issued expiresAt deferred =>
    some { s with point := .draining .applied expiresAt deferred, entry := none }
  | _ => none

def reply : Option Execution :=
  match s.point with
  | .reserving (some none) => some { s with point := .running }
  | .reserving (some (some existing)) =>
    some { s with point := .answering (handleExisting existing r.key r.fingerprint) }
  | .settling .applied => some { s with point := .ended .returned }
  | .draining .applied _ deferred => some { s with point := .ended (.raised deferred) }
  | _ => none

/-- The store cannot be reached. The failures after the app's end are logged only. -/
def fail (exc : AppException) : Option Execution :=
  match s.point with
  | .reserving _ =>
    some { s with point := if cfg.failOpen then .unprotected else .answering (.error exc) }
  | .settling _ => some { s with point := .ended .returned }
  | .draining _ _ deferred => some { s with point := .ended (.raised deferred) }
  | _ => none

def cancel : Option Execution :=
  match s.point with
  | .buffering | .reserving _ | .answering _ | .settling _ | .reaping _ =>
    some { s with point := .ended .cancelled }
  | .running | .unprotected => some s
  | .draining effect expiresAt _ => some { s with point := .draining effect expiresAt true }
  | .ended _ => none

def step : Event → Option Execution
  | .tick now => if s.clock ≤ now then some { s with clock := now } else none
  | .buffered => if s.point = .buffering then some { s with point := .reserving none } else none
  | .apply => s.apply r
  | .reply => s.reply r
  | .fail exc => s.fail cfg exc
  | .send message =>
    match s.point with
    | .running => some { s with capture := (capturingSend cfg r.key s.capture message).1 }
    | .unprotected => some s
    | _ => none
  | .appReturns =>
    match s.point with
    | .running => some { s with point := .settling .issued }
    | .unprotected => some { s with point := .ended .returned }
    | _ => none
  | .appRaises =>
    match s.point with
    | .running =>
      some { s with point := .draining .issued (s.clock + releaseTimeoutSeconds) false }
    | .unprotected => some { s with point := .ended (.raised false) }
    | _ => none
  | .sent =>
    match s.point with
    | .answering _ => some { s with point := .ended .returned }
    | _ => none
  | .timeout =>
    match s.point with
    | .draining _ expiresAt deferred =>
      if expiresAt ≤ s.clock then some { s with point := .reaping deferred } else none
    | _ => none
  | .reaped =>
    match s.point with
    | .reaping deferred => some { s with point := .ended (.raised deferred) }
    | _ => none
  | .cancel => s.cancel

/-! ## What is to be shown -/

/-- The store answers. -/
def Reachable (_ : Execution) : Event → Prop
  | .fail _ => False
  | _ => True

/-- No cancellation, and no end of the budget, stands between the reservation and what resolves
    it. -/
def Careful (s : Execution) (event : Event) : Prop :=
  match event, s.point with
  | .cancel, .reserving (some none) => False
  | .cancel, .settling .issued => False
  | .timeout, .draining .issued _ _ => False
  | _, _ => True

/-- If the execution reserved the key, the key is free, or completed with the captured response. -/
def Resolved (r : Request) (s : Execution) : Prop :=
  s.reserved = true →
    s.entry = none ∨ s.entry = some ⟨r.fingerprint, some s.capture.stored⟩

def Ended (s : Execution) : Prop := ∃ ending, s.point = .ended ending

/-! ## What a step does to the entry -/

/-- What an execution still owes the store: nothing yet, the end of its reservation, nothing any
    more. -/
inductive Stage
  | free
  | held
  | done

def stage (s : Execution) : Stage :=
  match s.point with
  | .buffering | .reserving none | .reserving (some (some _)) | .answering _ | .unprotected => .free
  | .reserving (some none) | .running | .settling .issued | .draining .issued _ _ => .held
  | .settling .applied | .draining .applied _ _ | .reaping _ | .ended _ => .done

variable {cfg r s} {t : Execution} {event : Event}

/-- Neither the entry nor whose it is has changed. -/
structure Same (s t : Execution) : Prop where
  entry : t.entry = s.entry
  reserved : t.reserved = s.reserved

inductive Move (r : Request) (s : Execution) (event : Event) (t : Execution) : Prop
  | stay (hsame : Same s t) (hstage : t.stage = s.stage)
      (hcapture : s.stage = .done → t.capture = s.capture) (hcareful : Careful s event)
  | leave (hsame : Same s t) (hfree : s.stage = .free) (hdone : t.stage = .done)
      (hcareful : Careful s event)
  | take (hfree : s.stage = .free) (hheld : t.stage = .held) (hentry : t.entry = some r.reservation)
      (hreserved : t.reserved = true) (hcareful : Careful s event)
  | resolve (hheld : s.stage = .held) (hdone : t.stage = .done)
      (hentry : t.entry = none ∨ t.entry = some ⟨r.fingerprint, some t.capture.stored⟩)
      (hcareful : Careful s event)
  | lose (hsame : Same s t) (hheld : s.stage = .held) (hdone : t.stage = .done)
      (hcareless : ¬ Careful s event)

theorem entry_outcome (c : Capture) (fingerprint : String) :
    (c.outcome fingerprint).entry = none ∨
      (c.outcome fingerprint).entry = some ⟨fingerprint, some c.stored⟩ := by
  unfold Capture.outcome
  split
  · exact .inl rfl
  split
  · exact .inl rfl
  · exact .inr rfl

theorem move_of_apply (h : s.apply r = some t) : Move r s .apply t := by
  unfold apply at h
  split at h <;> cases h
  · rename_i hpoint
    cases hentry : s.entry with
    | none =>
      have hnext : s.reserve r = { s with
          point := .reserving (some none), entry := some r.reservation, reserved := true } := by
        simp only [reserve, hentry]
      rw [hnext]
      exact .take (by simp [stage, hpoint]) rfl rfl rfl trivial
    | some existing =>
      have hnext : s.reserve r = { s with point := .reserving (some (some existing)) } := by
        simp only [reserve, hentry]
      rw [hnext]
      exact .stay ⟨rfl, rfl⟩ (by simp [stage, hpoint]) (fun _ => rfl) trivial
  · rename_i hpoint
    exact .resolve (by simp [stage, hpoint]) rfl (entry_outcome s.capture r.fingerprint) trivial
  · rename_i hpoint
    exact .resolve (by simp [stage, hpoint]) rfl (.inl rfl) trivial

theorem move_to {p point : Point} (hpoint : s.point = p)
    (hstage : ({ s with point } : Execution).stage = ({ s with point := p } : Execution).stage)
    (hcareful : Careful { s with point := p } event) : Move r s event { s with point } := by
  subst hpoint
  exact .stay ⟨rfl, rfl⟩ hstage (fun _ => rfl) hcareful

theorem move_of_reply (h : s.reply r = some t) : Move r s .reply t := by
  unfold reply at h
  split at h
  case h_5 => cases h
  all_goals
    rename_i hpoint
    cases h
    exact move_to hpoint rfl trivial

theorem move_off {p point : Point} (hpoint : s.point = p)
    (hfree : ({ s with point := p } : Execution).stage = .free)
    (hdone : ({ s with point } : Execution).stage = .done)
    (hcareful : Careful { s with point := p } event) : Move r s event { s with point } := by
  subst hpoint
  exact .leave ⟨rfl, rfl⟩ hfree hdone hcareful

/-- A cancellation ends the call, wherever it is not put off. -/
theorem move_of_cancel (h : s.cancel = some t) : Move r s .cancel t := by
  unfold cancel at h
  cases hpoint : s.point <;> rw [hpoint] at h <;> cases h
  case buffering => exact move_off hpoint rfl rfl trivial
  case reserving answer =>
    match answer with
    | none | some (some _) =>
      exact move_off hpoint rfl rfl trivial
    | some none => exact .lose ⟨rfl, rfl⟩ (by simp [stage, hpoint]) rfl (by simp [Careful, hpoint])
  case answering => exact move_off hpoint rfl rfl trivial
  case unprotected => exact .stay ⟨rfl, rfl⟩ rfl (fun _ => rfl) (by simp [Careful, hpoint])
  case running => exact .stay ⟨rfl, rfl⟩ rfl (fun _ => rfl) (by simp [Careful, hpoint])
  case settling effect =>
    cases effect with
    | issued => exact .lose ⟨rfl, rfl⟩ (by simp [stage, hpoint]) rfl (by simp [Careful, hpoint])
    | applied => exact move_to hpoint rfl trivial
  case draining effect expiresAt deferred =>
    cases effect with
    | issued | applied => exact move_to hpoint rfl trivial
  case reaping => exact move_to hpoint rfl trivial

/-- **Every step** of an execution whose store answers. -/
theorem step_move (hreachable : Reachable s event) (h : s.step cfg r event = some t) :
    Move r s event t := by
  cases event with
  | tick =>
    simp only [step] at h
    split at h <;> cases h
    exact .stay ⟨rfl, rfl⟩ rfl (fun _ => rfl) trivial
  | buffered | reaped =>
    simp only [step] at h
    split at h <;> cases h
    rename_i hpoint
    exact move_to hpoint rfl trivial
  | apply => exact move_of_apply h
  | reply => exact move_of_reply h
  | fail => exact hreachable.elim
  | send =>
    simp only [step] at h
    split at h <;> cases h
    · rename_i hpoint
      exact .stay ⟨rfl, rfl⟩ rfl (by simp [stage, hpoint]) trivial
    · exact .stay ⟨rfl, rfl⟩ rfl (fun _ => rfl) trivial
  | appReturns | appRaises =>
    simp only [step] at h
    split at h <;> cases h <;> rename_i hpoint
    · exact move_to hpoint rfl trivial
    · exact move_off hpoint rfl rfl trivial
  | sent =>
    simp only [step] at h
    split at h <;> cases h
    rename_i hpoint
    exact move_off hpoint rfl rfl trivial
  | timeout =>
    simp only [step] at h
    split at h <;> [skip; cases h]
    rename_i effect expiresAt deferred hpoint
    split at h <;> cases h
    cases effect with
    | issued => exact .lose ⟨rfl, rfl⟩ (by simp [stage, hpoint]) rfl (by simp [Careful, hpoint])
    | applied => exact move_to hpoint rfl trivial
  | cancel => exact move_of_cancel h

/-! ## Runs -/

/-- The entry is this execution's reservation as long as it owes its end. -/
structure Sound (r : Request) (s : Execution) : Prop where
  free : s.stage = .free → s.reserved = false
  held : s.stage = .held → s.reserved = true ∧ s.entry = some r.reservation

/-- An execution that owes nothing any more has resolved its reservation. -/
def Settled (r : Request) (s : Execution) : Prop := s.stage = .done → Resolved r s

theorem sound_of_stage (h : Sound r s) (hsame : Same s t) (hstage : t.stage = s.stage) :
    Sound r t := by
  refine ⟨?_, ?_⟩
  · intro hfree
    rw [hsame.reserved]
    exact h.free (hstage.symm.trans hfree)
  · intro hheld
    rw [hsame.reserved, hsame.entry]
    exact h.held (hstage.symm.trans hheld)

theorem sound_of_done (hdone : t.stage = .done) : Sound r t := by
  refine ⟨?_, ?_⟩
  · intro hfree
    rw [hdone] at hfree
    cases hfree
  · intro hheld
    rw [hdone] at hheld
    cases hheld

theorem Sound.step (hreachable : Reachable s event) (h : Sound r s)
    (hstep : s.step cfg r event = some t) : Sound r t := by
  cases step_move hreachable hstep with
  | stay hsame hstage => exact sound_of_stage h hsame hstage
  | leave _ _ hdone | resolve _ hdone | lose _ _ hdone => exact sound_of_done hdone
  | take _ hheld hentry hreserved =>
    refine ⟨?_, fun _ => ⟨hreserved, hentry⟩⟩
    intro hfree
    rw [hheld] at hfree
    cases hfree

theorem resolved_of_same (hsame : Same s t) (hcapture : t.capture = s.capture) :
    Resolved r t ↔ Resolved r s := by
  simp only [Resolved, hsame.reserved, hsame.entry, hcapture]

theorem not_resolved_of_held (h : Sound r s) (hheld : s.stage = .held) (hsame : Same s t) :
    ¬ Resolved r t := by
  obtain ⟨hreserved, hentry⟩ := h.held hheld
  intro hresolved
  rw [Resolved, hsame.reserved, hsame.entry, hentry] at hresolved
  rcases hresolved hreserved with hnone | hsome
  · cases hnone
  · cases hsome

theorem Settled.step (hreachable : Reachable s event) (hcareful : Careful s event)
    (hsound : Sound r s) (h : Settled r s) (hstep : s.step cfg r event = some t) : Settled r t := by
  intro hdone
  cases step_move hreachable hstep with
  | stay hsame hstage hcapture =>
    have hs : s.stage = .done := hstage.symm.trans hdone
    exact (resolved_of_same hsame (hcapture hs)).mpr (h hs)
  | leave hsame hfree =>
    intro hreserved
    rw [hsame.reserved, hsound.free hfree] at hreserved
    cases hreserved
  | take _ hheld =>
    rw [hheld] at hdone
    cases hdone
  | resolve _ _ hentry => exact fun _ => hentry
  | lose _ _ _ hcareless => exact absurd hcareful hcareless

theorem Settled.back (hreachable : Reachable s event) (hsound : Sound r s)
    (hstep : s.step cfg r event = some t) (h : Settled r t) : Careful s event ∧ Settled r s := by
  cases step_move hreachable hstep with
  | stay hsame hstage hcapture hcareful =>
    refine ⟨hcareful, ?_⟩
    intro hdone
    exact (resolved_of_same hsame (hcapture hdone)).mp (h (hstage.trans hdone))
  | leave _ hstage _ hcareful | take hstage _ _ _ hcareful | resolve hstage _ _ hcareful =>
    refine ⟨hcareful, ?_⟩
    intro hdone
    rw [hstage] at hdone
    cases hdone
  | lose hsame hheld hdone => exact absurd (h hdone) (not_resolved_of_held hsound hheld hsame)

/-- A request that has arrived, with what stands under its key. -/
def start (entry : Option IdempotencyRecord) : Execution := { entry }

theorem sound_start (r : Request) (entry : Option IdempotencyRecord) : Sound r (start entry) :=
  ⟨fun _ => rfl, nofun⟩

theorem settled_start (r : Request) (entry : Option IdempotencyRecord) :
    Settled r (start entry) := nofun

/-- **An execution that has ended, with the store reachable all along, has resolved its reservation
    if and only if every one of its steps was careful.** -/
theorem resolved_iff {entry : Option IdempotencyRecord} {events : List Event}
    (hrun : Along (step cfg r) Reachable (start entry) events t) (hended : Ended t) :
    Resolved r t ↔
      Along (step cfg r) (fun s event => Reachable s event ∧ Careful s event) (start entry)
        events t := by
  obtain ⟨ending, hpoint⟩ := hended
  have hdone : t.stage = .done := by simp [stage, hpoint]
  constructor
  · intro hresolved
    have hend : Settled r t := fun _ => hresolved
    exact (hrun.strengthen (fun hsound hok hstep => hsound.step hok hstep)
      (fun hsound hok hstep hnext =>
        have hback := hnext.back hok hsound hstep
        ⟨⟨hok, hback.1⟩, hback.2⟩) (sound_start r entry) hend).1
  · intro hcareful
    have hsettled : Settled r _ := hcareful.run.invariant_with
      (fun hsound hok => Sound.step hok.1 hsound)
      (fun hsound hsettled hok => hsettled.step hok.1 hok.2 hsound)
      (sound_start r entry) (settled_start r entry)
    exact hsettled hdone

/-- The app answers 201. -/
def answered : List Event :=
  [.buffered, .apply, .reply, .send (.responseStart 201 []), .send (.responseBody [7] false),
    .appReturns]

theorem resolved_iff_answered : ∃ t,
    Along (step {} ⟨"anon:k", "k", "f"⟩) Reachable (start none) (answered ++ [.apply, .reply]) t ∧
    (Resolved ⟨"anon:k", "k", "f"⟩ t ↔ Along (step {} ⟨"anon:k", "k", "f"⟩)
      (fun s event => Reachable s event ∧ Careful s event) (start none)
      (answered ++ [.apply, .reply]) t) := by
  have hrun : Along (step {} ⟨"anon:k", "k", "f"⟩) Reachable (start none)
      (answered ++ [.apply, .reply])
      { point := .ended .returned, entry := some ⟨"f", some ⟨201, [], [7]⟩⟩
        capture := ⟨201, [], [7], false, true⟩, reserved := true } :=
    .cons trivial rfl (.cons trivial rfl (.cons trivial rfl (.cons trivial rfl (.cons trivial rfl
      (.cons trivial rfl (.cons trivial rfl (.cons trivial rfl (.nil _))))))))
  exact ⟨_, hrun, resolved_iff hrun ⟨.returned, rfl⟩⟩

/-- The app has returned and its response has been sent. The task is cancelled before `complete` has
    taken effect, and the key stays reserved. -/
theorem reserved_after_cancel : ∃ t,
    Along (step {} ⟨"anon:k", "k", "f"⟩) Reachable (start none) (answered ++ [.cancel]) t ∧
      Ended t ∧ t.entry = some ⟨"f", none⟩ ∧ ¬ Resolved ⟨"anon:k", "k", "f"⟩ t := by
  refine ⟨{ point := .ended .cancelled, entry := some ⟨"f", none⟩
            capture := ⟨201, [], [7], false, true⟩, reserved := true }, ?_, ⟨_, rfl⟩, rfl, ?_⟩
  · exact .cons trivial rfl (.cons trivial rfl (.cons trivial rfl (.cons trivial rfl
      (.cons trivial rfl (.cons trivial rfl (.cons trivial rfl (.nil _)))))))
  · intro hresolved
    rcases hresolved rfl with hnone | hsome
    · cases hnone
    · cases hsome

end Execution

end Idempotency
