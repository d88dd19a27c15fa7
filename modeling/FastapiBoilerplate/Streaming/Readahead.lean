import Mathlib.Algebra.Order.Ring.Rat
import FastapiBoilerplate.Lib.Run
import FastapiBoilerplate.Lib.Text

/-!
# Reading ahead

`src/streaming/backpressure.py`, with `src/streaming/closing.py` and the entry of
`src/structured/deadline.py`: a producer task moves what an iterator yields into a bounded queue,
and the generator `with_readahead` yields what it takes out of it.

## What is a step

The iterator is a machine: `resume` runs a pending `__anext__` to its next await or to its answer,
and `awaits` says whether it is suspended in one. The producer gives up control in three places
only, inside the iterator, in a `put` on a full queue, and while it closes the iterator, and these
are the places where a timer or a cancellation reaches it. So a `put` that finds room is not a step
of its own, and `expire` needs a producer that is suspended: a cancelled `put` leaves its item
nowhere.

A generator that has ended closes at once; one that is closed in the middle runs what it has to
undo, which may take time and may raise (`closed`). The scope around the producer cancels it when
the generator is left early, and waits for it.

`taken` is the one field the code does not have: the items that the iterator has yielded.
-/

namespace Streaming

open Lib List

abbrev Seconds := ℚ

/-- `f"{seconds:g}"`, on which nothing here depends. -/
class FloatFormat where
  general : Seconds → Text

/-- An `Exception`, as far as the code tells them apart: an `AppException` has a code and a message,
    and `deadline` looks for a `TimeoutError`. -/
inductive Exc
  | app (errorCode message : Text)
  | timeout
  | other
  deriving DecidableEq

/-- `Deadline`. -/
structure Deadline where
  name : Text
  expiresAt : Seconds
  budget : Seconds

/-- `DeadlineExceeded`. -/
def deadlineExceeded [Unicode] [FloatFormat] (scope : Text) (seconds : Seconds) : Exc :=
  .app (lit "DEADLINE_EXCEEDED")
    (lit "Deadline " ++ reprText scope ++ lit " of " ++ FloatFormat.general seconds ++
      lit "s exceeded")

/-- The entry of `deadline(seconds)`: when its timer goes off. An enclosing deadline that is not
    later has a timer of its own, in the task that entered it, and no second one is armed. -/
def enterDeadline (now seconds : Seconds) (enclosing : Option Deadline) :
    Except Exc (Option Seconds) :=
  if seconds ≤ 0 then .error .other
  else if enclosing.any fun d => d.expiresAt ≤ now + seconds then .ok none
  else .ok (some (now + seconds))

/-- What `__anext__` comes to. -/
inductive Next (ι : Type)
  | item (value : ι)
  | stop
  | raises (error : Exc)

/-- The item of an answer. -/
def Next.items {ι : Type} : Option (Next ι) → List ι
  | some (.item v) => [v]
  | none | some .stop | some (.raises _) => []

structure AsyncIterator (σ ι : Type) where
  resume : σ → σ × Option (Next ι)
  awaits : σ → Bool

/-- The arguments of `with_readahead`, and the deadline its caller is under. -/
structure Config where
  readahead : ℕ
  name : Text
  budget : Option Seconds
  enclosing : Option Deadline := none

/-- `_Item` and `_Finished`. -/
inductive Envelope (ι : Type)
  | item (value : ι)
  | finished (error : Option Exc)

/-- What cancelled the producer. -/
inductive Cause
  | expired
  | abandoned

inductive Producer (ι : Type)
  | unstarted
  | iterating
  | putting (item : ι)
  | closing (cause : Cause)
  | finishing (error : Option Exc)
  | done

/-- The generator: it is iterated, its scope waits for the producer, it has ended, or it was left
    early. -/
inductive Consumer
  | reading
  | leaving (result : Option (Option Exc))
  | ended (error : Option Exc)
  | closed
  deriving DecidableEq

structure Sys (σ ι : Type) where
  iterator : σ
  producer : Producer ι
  consumer : Consumer
  queue : List (Envelope ι) := []
  received : List ι := []
  taken : List ι := []
  now : Seconds := 0
  timer : Option Seconds := none

inductive Action
  | tick (seconds : Seconds)
  | start
  | advance
  | resume
  | expire
  | closed (raised : Option Exc)
  | get
  | close
  | leave
  deriving DecidableEq

/-- What the scope's cancellation does to the producer. -/
def Producer.cancel {ι : Type} : Producer ι → Producer ι
  | .iterating | .putting _ | .closing _ => .closing .abandoned
  | .unstarted | .finishing _ | .done => .done

/-- A cancellation by the timer reaches the producer in an await. -/
def Producer.suspended {ι : Type} (awaits : Bool) : Producer ι → Bool
  | .iterating => awaits
  | .putting _ => true
  | _ => false

/-- The item that the producer is putting. -/
def Producer.hand {ι : Type} : Producer ι → List ι
  | .putting v => [v]
  | _ => []

namespace Sys

section
variable {σ ι : Type} (cfg : Config) (s : Sys σ ι)

/-- The generator before its first step; `with_readahead` refuses to read nothing ahead. -/
def initial (iterator : σ) : Sys σ ι :=
  if cfg.readahead < 1 then
    { iterator, producer := .done, consumer := .ended (some .other) }
  else { iterator, producer := .unstarted, consumer := .reading }

/-- `Queue.put`, which is suspended when the queue is full. -/
def put (envelope : Envelope ι) (put blocked : Producer ι) : Sys σ ι :=
  if s.queue.length < cfg.readahead then
    { s with queue := s.queue ++ [envelope], producer := put }
  else { s with producer := blocked }

/-- The end of `produce`: outside the deadline, the producer says how it went. -/
def finish (error : Option Exc) : Sys σ ι :=
  { s with timer := none }.put cfg (.finished error) .done (.finishing error)

def start : Sys σ ι :=
  match cfg.budget with
  | none => { s with producer := .iterating }
  | some budget =>
    match enterDeadline s.now budget cfg.enclosing with
    | .error e => s.finish cfg (some e)
    | .ok timer => { s with producer := .iterating, timer }

/-- The producer runs to its next await, or to the answer of the iterator and past it. -/
def advance (it : AsyncIterator σ ι) : Sys σ ι :=
  let (iterator, answer) := it.resume s.iterator
  match answer with
  | none => { s with iterator }
  | some (.item v) =>
    { s with iterator, taken := s.taken ++ [v] }.put cfg (.item v) .iterating (.putting v)
  | some .stop => { s with iterator }.finish cfg none
  | some (.raises e) => { s with iterator }.finish cfg (some e)

/-- What leaves the block that was cancelled: the timer's own cancellation, and a `TimeoutError` after
    it, come out as `DeadlineExceeded`, and what closing the iterator raises comes out instead. -/
def unwound [Unicode] [FloatFormat] (raised : Option Exc) : Cause → Option Exc
  | .expired =>
    match raised with
    | some .timeout | none => some (deadlineExceeded cfg.name (cfg.budget.getD 0))
    | some e => some e
  | .abandoned => raised

/-- The iterator is closed, or closing it has raised. -/
def closed [Unicode] [FloatFormat] (raised : Option Exc) (cause : Cause) : Sys σ ι :=
  match unwound cfg raised cause with
  | some e => s.finish cfg (some e)
  | none => { s with producer := .done }

def step [Unicode] [FloatFormat] (it : AsyncIterator σ ι) (s : Sys σ ι) : Action → Option (Sys σ ι)
  | .tick seconds => if 0 ≤ seconds then some { s with now := s.now + seconds } else none
  | .start => if s.producer matches .unstarted then some (s.start cfg) else none
  | .advance => if s.producer matches .iterating then some (s.advance cfg it) else none
  | .resume =>
    if s.queue.length < cfg.readahead then
      match s.producer with
      | .putting v => some { s with queue := s.queue ++ [.item v], producer := .iterating }
      | .finishing e => some { s with queue := s.queue ++ [.finished e], producer := .done }
      | _ => none
    else none
  | .expire =>
    if s.timer.any (· ≤ s.now) && s.producer.suspended (it.awaits s.iterator) then
      some { s with producer := .closing .expired, timer := none }
    else none
  | .closed raised =>
    match s.producer with
    | .closing cause => some (s.closed cfg raised cause)
    | _ => none
  | .get =>
    match s.consumer, s.queue with
    | .reading, .item v :: queue => some { s with queue, received := s.received ++ [v] }
    | .reading, .finished e :: queue => some { s with queue, consumer := .leaving (some e) }
    | _, _ => none
  | .close =>
    if s.consumer = .reading then
      some { s with consumer := .leaving none, producer := s.producer.cancel }
    else none
  | .leave =>
    match s.consumer, s.producer with
    | .leaving (some e), .done => some { s with consumer := .ended e }
    | .leaving none, .done => some { s with consumer := .closed }
    | _, _ => none

end

/-- The timer does not go off while the producer is putting an item on a full queue. -/
def Spared {σ ι : Type} (s : Sys σ ι) (a : Action) : Prop := a = .expire → s.producer.hand = []

instance {σ ι : Type} (s : Sys σ ι) (a : Action) : Decidable (Spared s a) :=
  inferInstanceAs (Decidable (_ → _))

/-! ## What a step is made of

A `put` that finds room does two things at once. Taken apart, a step is a few moves that each do
one, and all of them but two keep what is on its way: the timer and the scope may cancel a `put`
that is suspended. -/

section
variable {σ ι : Type} {it : AsyncIterator σ ι} {s s' : Sys σ ι}

inductive Move (it : AsyncIterator σ ι) (s : Sys σ ι) : Sys σ ι → Prop
  | clock (now : Seconds) (timer : Option Seconds) : Move it s { s with now, timer }
  | begin (idle : s.producer = .unstarted) : Move it s { s with producer := .iterating }
  | refuse (idle : s.producer = .unstarted) (e : Exc) :
      Move it s { s with producer := .finishing (some e) }
  | think (iterating : s.producer = .iterating) {x : σ} (none : it.resume s.iterator = (x, none)) :
      Move it s { s with iterator := x }
  | take (iterating : s.producer = .iterating) {x : σ} {v : ι}
      (item : it.resume s.iterator = (x, some (.item v))) :
      Move it s { s with iterator := x, taken := s.taken ++ [v], producer := .putting v }
  | pass {v : ι} (putting : s.producer = .putting v) :
      Move it s { s with queue := s.queue ++ [.item v], producer := .iterating }
  | stop (iterating : s.producer = .iterating) {x : σ}
      (stop : it.resume s.iterator = (x, some .stop)) :
      Move it s { s with iterator := x, producer := .finishing none }
  | raise (iterating : s.producer = .iterating) {x : σ} {e : Exc}
      (raises : it.resume s.iterator = (x, some (.raises e))) :
      Move it s { s with iterator := x, producer := .finishing (some e) }
  | cut (iterating : s.producer = .iterating) (awaits : it.awaits s.iterator = true) :
      Move it s { s with producer := .closing .expired }
  | unwind {cause : Cause} (closing : s.producer = .closing cause) (e : Exc) :
      Move it s { s with producer := .finishing (some e) }
  | die {cause : Cause} (closing : s.producer = .closing cause) :
      Move it s { s with producer := .done }
  | tell {e : Option Exc} (finishing : s.producer = .finishing e) :
      Move it s { s with queue := s.queue ++ [.finished e], producer := .done }
  | get (reading : s.consumer = .reading) {v : ι} {queue : List (Envelope ι)}
      (item : s.queue = .item v :: queue) :
      Move it s { s with queue, received := s.received ++ [v] }
  | hear (reading : s.consumer = .reading) {e : Option Exc} {queue : List (Envelope ι)}
      (finished : s.queue = .finished e :: queue) :
      Move it s { s with queue, consumer := .leaving (some e) }
  | leave {e : Option Exc} (leaving : s.consumer = .leaving (some e))
      (done : s.producer = .done) : Move it s { s with consumer := .ended e }
  | quit (leaving : s.consumer = .leaving none) : Move it s { s with consumer := .closed }

/-- Some moves, one after the other. -/
inductive Moves (it : AsyncIterator σ ι) : Sys σ ι → Sys σ ι → Prop
  | refl (s : Sys σ ι) : Moves it s s
  | cons {s t u : Sys σ ι} (move : Move it s t) (rest : Moves it t u) : Moves it s u

theorem Move.moves (h : Move it s s') : Moves it s s' := .cons h (.refl s')

theorem Moves.invariant {Inv : Sys σ ι → Prop}
    (keep : ∀ {s t : Sys σ ι}, Inv s → Move it s t → Inv t) (h : Moves it s s') (hs : Inv s) :
    Inv s' := by
  induction h with
  | refl => exact hs
  | cons move _ ih => exact ih (keep hs move)

variable (cfg : Config)

theorem put_item_moves {v : ι} (h : s.producer = .putting v) :
    Moves it s (s.put cfg (.item v) .iterating (.putting v)) := by
  unfold put
  split
  · exact (Move.pass h).moves
  · rw [← h]
    exact .refl s

theorem finish_moves (e : Option Exc) :
    Moves it { s with producer := .finishing e } (s.finish cfg e) := by
  unfold finish put
  refine .cons (.clock s.now none) ?_
  split
  · exact (Move.tell rfl).moves
  · exact .refl _

theorem start_moves (h : s.producer = .unstarted) : Moves it s (s.start cfg) := by
  unfold start
  split
  · exact (Move.begin h).moves
  split
  · exact .cons (.refuse h _) (finish_moves cfg _)
  · exact .cons (.begin h) (Move.clock s.now _).moves

theorem advance_moves (h : s.producer = .iterating) : Moves it s (s.advance cfg it) := by
  unfold advance
  rcases hx : it.resume s.iterator with ⟨x, answer⟩
  match answer with
  | none => exact (Move.think h hx).moves
  | some (.item v) => exact .cons (.take h hx) (put_item_moves cfg rfl)
  | some .stop =>
    exact .cons (.stop h hx) (finish_moves (s := { s with iterator := x }) cfg none)
  | some (.raises e) =>
    exact .cons (.raise h hx) (finish_moves (s := { s with iterator := x }) cfg (some e))

theorem closed_moves [Unicode] [FloatFormat] (raised : Option Exc) {cause : Cause}
    (h : s.producer = .closing cause) : Moves it s (s.closed cfg raised cause) := by
  unfold closed
  split
  · exact .cons (.unwind h _) (finish_moves cfg _)
  · exact (Move.die h).moves

/-- A step is made of moves, or it cancels the producer: the timer in a suspended `put`, or the
    scope. -/
theorem step_cases [Unicode] [FloatFormat] {a : Action} (h : s.step cfg it a = some s') :
    (Spared s a ∧ Moves it s s') ∨
    (a = .expire ∧ (∃ v, s.producer = .putting v) ∧
      s' = { s with producer := .closing .expired, timer := none }) ∨
    (a = .close ∧ s.consumer = .reading ∧
      s' = { s with consumer := .leaving none, producer := s.producer.cancel }) := by
  cases a with simp only [step] at h
  | tick =>
    split at h <;> cases h
    exact .inl ⟨nofun, (Move.clock _ s.timer).moves⟩
  | start =>
    split at h <;> cases h
    exact .inl ⟨nofun, start_moves cfg ‹_›⟩
  | advance =>
    split at h <;> cases h
    exact .inl ⟨nofun, advance_moves cfg ‹_›⟩
  | resume =>
    split at h <;> [split at h; skip] <;> cases h
    · exact .inl ⟨nofun, (Move.pass ‹_›).moves⟩
    · exact .inl ⟨nofun, (Move.tell ‹_›).moves⟩
  | expire =>
    split at h <;> cases h
    rename_i hdue
    rw [Bool.and_eq_true] at hdue
    cases hp : s.producer with
    | iterating =>
      rw [hp] at hdue
      refine .inl ⟨fun _ => ?_, .cons (.cut hp hdue.2) (Move.clock s.now none).moves⟩
      rw [hp, Producer.hand]
      exact nofun
    | putting v => exact .inr (.inl ⟨rfl, ⟨v, rfl⟩, rfl⟩)
    | unstarted | closing | finishing | done =>
      rw [hp] at hdue
      cases hdue.2
  | closed raised =>
    split at h <;> cases h
    exact .inl ⟨nofun, closed_moves cfg raised ‹_›⟩
  | get =>
    split at h <;> cases h
    · exact .inl ⟨nofun, (Move.get ‹_› ‹_›).moves⟩
    · exact .inl ⟨nofun, (Move.hear ‹_› ‹_›).moves⟩
  | close =>
    split at h <;> cases h
    exact .inr (.inr ⟨rfl, ‹_›, rfl⟩)
  | leave =>
    split at h <;> cases h
    · exact .inl ⟨nofun, (Move.leave ‹_› ‹_›).moves⟩
    · exact .inl ⟨nofun, (Move.quit ‹_›).moves⟩

end

end Sys

/-! ## Nothing is lost on the way -/

def Envelope.value {ι : Type} : Envelope ι → Option ι
  | .item v => some v
  | .finished _ => none

/-- The producer takes nothing any more. -/
def Producer.stopped {ι : Type} : Producer ι → Prop
  | .closing _ | .finishing _ | .done => True
  | _ => False

namespace Sys

section
variable {σ ι : Type} {it : AsyncIterator σ ι} {s s' : Sys σ ι}

/-- What has been taken and not lost, in order: received, queued, and in the hand. -/
def onItsWay (s : Sys σ ι) : List ι :=
  s.received ++ s.queue.filterMap Envelope.value ++ s.producer.hand

/-- The generator was left before its end. -/
def Abandoned (s : Sys σ ι) : Prop := s.consumer = .leaving none ∨ s.consumer = .closed

/-- A move takes an item, which is then on its way, or none. -/
theorem Move.onItsWay (h : Move it s s') :
    (s'.onItsWay = s.onItsWay ∧ s'.taken = s.taken ∧ (s.producer.stopped → s'.producer.stopped)) ∨
    (s.producer = .iterating ∧
      ∃ v, s'.onItsWay = s.onItsWay ++ [v] ∧ s'.taken = s.taken ++ [v]) := by
  cases h with
  | clock | think | leave | quit =>
    exact .inl ⟨rfl, rfl, id⟩
  | begin here | refuse here | stop here | raise here | cut here | unwind here | die here =>
    simp [Sys.onItsWay, here, Producer.hand, Producer.stopped]
  | take iterating => simp [Sys.onItsWay, iterating, Producer.hand]
  | pass here | tell here =>
    simp [Sys.onItsWay, here, Producer.hand, Producer.stopped, Envelope.value]
  | get reading item => simp [Sys.onItsWay, item, Envelope.value]
  | hear reading finished => simp [Sys.onItsWay, finished, filterMap_cons, Envelope.value]

theorem Move.abandoned (h : Move it s s') (hs : s.Abandoned) : s'.Abandoned := by
  cases h with
  | hear here | leave here => simp [Abandoned, here] at hs
  | quit => exact .inr rfl
  | clock | begin | refuse | think | take | pass | stop | raise | cut | unwind | die | tell | get =>
    exact hs

/-- What is on its way was taken first, and what was taken after it was lost by a producer that has
    stopped. -/
def Conserved (s : Sys σ ι) : Prop :=
  s.onItsWay <+: s.taken ∧ (s.onItsWay ≠ s.taken → s.producer.stopped)

theorem Conserved.move (h : Conserved s) (hmove : Move it s s') : Conserved s' := by
  rcases hmove.onItsWay with ⟨hway, htaken, hstopped⟩ | ⟨hiter, v, hway, htaken⟩
  · rw [Conserved, hway, htaken]
    exact ⟨h.1, fun hne => hstopped (h.2 hne)⟩
  · have hall : s.onItsWay = s.taken := by
      by_contra hne
      simpa [hiter, Producer.stopped] using h.2 hne
    rw [Conserved, hway, htaken, hall]
    exact ⟨prefix_rfl, fun hne => absurd rfl hne⟩

theorem Moves.lossless (h : Moves it s s') (hs : Conserved s) :
    s'.onItsWay = s'.taken ↔ s.onItsWay = s.taken := by
  induction h with
  | refl => exact Iff.rfl
  | cons move _ ih =>
    rw [ih (hs.move move)]
    rcases move.onItsWay with ⟨hway, htaken, -⟩ | ⟨-, v, hway, htaken⟩
    · rw [hway, htaken]
    · rw [hway, htaken, append_left_inj]

/-- The producer is cancelled: what it was putting is lost. -/
theorem Conserved.cancel {producer : Producer ι} {consumer : Consumer} {timer : Option Seconds}
    (h : Conserved s) (hstopped : producer.stopped) :
    Conserved { s with producer, consumer, timer } := by
  have hhand : producer.hand = [] := by
    cases producer <;> first | rfl | cases hstopped
  refine ⟨?_, fun _ => hstopped⟩
  rw [onItsWay, hhand, append_nil]
  exact (prefix_append _ _).trans h.1

theorem stopped_cancel (p : Producer ι) : p.cancel.stopped := by
  cases p <;> trivial

end

section
variable [Unicode] [FloatFormat] {σ ι : Type} {cfg : Config} {it : AsyncIterator σ ι}
  {s s' : Sys σ ι} {a : Action}

theorem Conserved.step (h : Conserved s) (hstep : s.step cfg it a = some s') : Conserved s' := by
  rcases step_cases cfg hstep with ⟨-, hmoves⟩ | ⟨-, -, rfl⟩ | ⟨-, -, rfl⟩
  · exact hmoves.invariant Conserved.move h
  · exact h.cancel trivial
  · exact h.cancel (stopped_cancel s.producer)

theorem lossless_back (h : Conserved s) (hstep : s.step cfg it a = some s')
    (hs' : s'.onItsWay = s'.taken ∧ ¬ s'.Abandoned) :
    Spared s a ∧ s.onItsWay = s.taken ∧ ¬ s.Abandoned := by
  obtain ⟨hway, hleft⟩ := hs'
  rcases step_cases cfg hstep with ⟨hspared, hmoves⟩ | ⟨-, ⟨v, hv⟩, rfl⟩ | ⟨-, -, rfl⟩
  · refine ⟨hspared, (hmoves.lossless h).mp hway, fun hs => hleft ?_⟩
    exact hmoves.invariant (fun hs move => Move.abandoned move hs) hs
  · -- The item in the hand was taken, and is not on its way any more.
    exfalso
    have hway : s.received ++ s.queue.filterMap Envelope.value ++ [] = s.taken := hway
    have hlong := h.1.length_le
    simp only [onItsWay, hv, Producer.hand, ← hway, length_append, length_singleton,
      length_nil] at hlong
    omega
  · exact absurd (.inl rfl) hleft

theorem lossless_of_step (h : s.Abandoned ∨ (Conserved s ∧ s.onItsWay = s.taken))
    (hspared : Spared s a) (hstep : s.step cfg it a = some s') :
    s'.Abandoned ∨ (Conserved s' ∧ s'.onItsWay = s'.taken) := by
  rcases step_cases cfg hstep with ⟨-, hmoves⟩ | ⟨ha, ⟨v, hv⟩, -⟩ | ⟨-, -, rfl⟩
  · rcases h with hs | ⟨hs, hway⟩
    · exact .inl (hmoves.invariant (fun hs move => Move.abandoned move hs) hs)
    · exact .inr ⟨hmoves.invariant Conserved.move hs, (hmoves.lossless hs).mpr hway⟩
  · have hhand := hspared ha
    rw [hv] at hhand
    cases hhand
  · exact .inl (.inl rfl)

omit [Unicode] [FloatFormat] in
theorem conserved_initial (x : σ) :
    Conserved (initial cfg x : Sys σ ι) ∧
      (initial cfg x : Sys σ ι).onItsWay = (initial cfg x : Sys σ ι).taken := by
  unfold initial Conserved
  split <;> exact ⟨⟨prefix_rfl, fun hne => absurd rfl hne⟩, rfl⟩

/-- **What is taken arrives.** At the end of a run, everything that the iterator has yielded has been
    received or is on its way to, in order, if and only if the timer never went off while the
    producer was suspended in a `put`. -/
theorem lossless_iff {x : σ} {as : List Action}
    (h : Along (step cfg it) Always (initial cfg x) as s) (hleft : ¬ s.Abandoned) :
    s.onItsWay = s.taken ↔ Along (step cfg it) Spared (initial cfg x) as s := by
  obtain ⟨hconserved, hway⟩ : Conserved (initial cfg x : Sys σ ι) ∧ _ := conserved_initial x
  constructor
  · intro hs
    have hback : ∀ {s t : Sys σ ι} {a : Action}, Conserved s → Always s a →
        step cfg it s a = some t → t.onItsWay = t.taken ∧ ¬ t.Abandoned →
        Spared s a ∧ s.onItsWay = s.taken ∧ ¬ s.Abandoned :=
      fun hs _ hstep => lossless_back hs hstep
    exact (h.strengthen (fun hs _ hstep => Conserved.step hs hstep) hback hconserved
      ⟨hs, hleft⟩).1
  · intro hspared
    rcases hspared.run.invariant (fun hs hok hstep => lossless_of_step hs hok hstep)
      (.inr ⟨hconserved, hway⟩) with hs | ⟨-, hs⟩
    · exact absurd hs hleft
    · exact hs

end

/-! ## How it went is said last

The producer says how it went once, behind everything else. `V` is what the iterator has come to
then; as long as it is `Live`, it has not come to its end. -/

section
variable {σ ι : Type} {it : AsyncIterator σ ι} {s s' : Sys σ ι} {Live : σ → Prop}
  {V : Option Exc → σ → Prop}

/-- What each end of the iteration comes to. -/
structure Verdict (it : AsyncIterator σ ι) (Live : σ → Prop) (V : Option Exc → σ → Prop) : Prop where
  think : ∀ {x y}, Live x → it.resume x = (y, none) → Live y
  item : ∀ {x y v}, Live x → it.resume x = (y, some (.item v)) → Live y
  stop : ∀ {x y}, Live x → it.resume x = (y, some .stop) → V none y
  raises : ∀ {x y e}, Live x → it.resume x = (y, some (.raises e)) → V (some e) y
  cut : ∀ {x}, it.awaits x = true → ∀ e, V (some e) x

structure Settled (Live : σ → Prop) (V : Option Exc → σ → Prop) (s : Sys σ ι) : Prop where
  live : ¬ s.producer.stopped → Live s.iterator
  /-- The queue holds items, and behind them what the producer said when it was done. -/
  queue : ∃ items : List ι, s.queue = items.map .item ∨
    (s.producer = .done ∧ ∃ e, s.queue = items.map .item ++ [.finished e] ∧ V e s.iterator)
  finished : ∀ e, s.consumer = .leaving (some e) ∨ s.consumer = .ended e →
    s.producer = .done ∧ s.queue = [] ∧ V e s.iterator
  finishing : ∀ e, s.producer = .finishing e → V e s.iterator
  cut : (s.producer = .unstarted ∨ ∃ cause, s.producer = .closing cause) →
    ∀ e, V (some e) s.iterator

/-- While the producer is at work, the queue holds items only and the generator is not over. -/
theorem Settled.working (h : Settled Live V s) (hwork : s.producer ≠ .done) :
    (∃ items : List ι, s.queue = items.map .item) ∧
      ∀ e, ¬ (s.consumer = .leaving (some e) ∨ s.consumer = .ended e) := by
  obtain ⟨items, hqueue | ⟨hdone, -⟩⟩ := h.queue
  · exact ⟨⟨items, hqueue⟩, fun e hover => hwork (h.finished e hover).1⟩
  · exact absurd hdone hwork

theorem Settled.goOn {producer : Producer ι} {x : σ} {taken : List ι} (h : Settled Live V s)
    (hwork : s.producer ≠ .done) (hlive : ¬ producer.stopped → Live x)
    (hfinishing : ∀ e, producer = .finishing e → V e x)
    (hcut : (producer = .unstarted ∨ ∃ cause, producer = .closing cause) → ∀ e, V (some e) x) :
    Settled Live V { s with iterator := x, producer, taken } := by
  obtain ⟨⟨items, hqueue⟩, hover⟩ := h.working hwork
  exact ⟨hlive, ⟨items, .inl hqueue⟩, fun e he => absurd he (hover e), hfinishing, hcut⟩

theorem Settled.move (hV : Verdict it Live V) (h : Settled Live V s) (hmove : Move it s s') :
    Settled Live V s' := by
  have hlive : s.producer = .iterating → Live s.iterator := by
    intro hiter
    exact h.live (by simp [hiter, Producer.stopped])
  -- a producer that has stopped asks nothing of the iterator
  have hnone {P : Prop} : ¬ True → P := fun h => absurd trivial h
  cases hmove with
  | clock => exact ⟨h.live, h.queue, h.finished, h.finishing, h.cut⟩
  | begin idle =>
    refine h.goOn (by simp [idle]) (fun _ => ?_) nofun (by simp)
    exact h.live (by simp [idle, Producer.stopped])
  | refuse idle e =>
    refine h.goOn (by simp [idle]) hnone ?_ (by simp)
    intro e' he'
    cases he'
    exact h.cut (.inl idle) e
  | think iterating hx =>
    refine h.goOn (by simp [iterating]) (fun _ => hV.think (hlive iterating) hx) ?_ ?_
    · simp [iterating]
    · simp [iterating]
  | take iterating hx =>
    exact h.goOn (by simp [iterating]) (fun _ => hV.item (hlive iterating) hx) nofun (by simp)
  | @pass v putting =>
    obtain ⟨⟨items, hqueue⟩, hover⟩ := h.working (by simp [putting])
    refine ⟨fun _ => h.live ?_, ⟨items ++ [v], .inl ?_⟩, fun e he => absurd he (hover e), nofun,
      by simp⟩
    · simp [putting, Producer.stopped]
    · rw [hqueue, map_append, map_singleton]
  | stop iterating hx =>
    refine h.goOn (by simp [iterating]) hnone ?_ (by simp)
    intro e he
    cases he
    exact hV.stop (hlive iterating) hx
  | raise iterating hx =>
    refine h.goOn (by simp [iterating]) hnone ?_ (by simp)
    intro e he
    cases he
    exact hV.raises (hlive iterating) hx
  | cut iterating awaits =>
    exact h.goOn (by simp [iterating]) hnone nofun
      fun _ => hV.cut awaits
  | unwind closing e =>
    refine h.goOn (by simp [closing]) hnone ?_ (by simp)
    intro e' he'
    cases he'
    exact h.cut (.inr ⟨_, closing⟩) e
  | die closing =>
    exact h.goOn (by simp [closing]) hnone nofun (by simp)
  | tell finishing =>
    obtain ⟨⟨items, hqueue⟩, hover⟩ := h.working (by simp [finishing])
    refine ⟨hnone,
      ⟨items, .inr ⟨rfl, _, ?_, h.finishing _ finishing⟩⟩, fun e he => absurd he (hover e), nofun,
      by simp⟩
    rw [hqueue]
  | get reading item =>
    refine ⟨h.live, ?_, ?_, h.finishing, h.cut⟩
    · obtain ⟨items, hqueue | ⟨hdone, e, hqueue, he⟩⟩ := h.queue
      · rw [item] at hqueue
        cases items with
        | nil => cases hqueue
        | cons v items => exact ⟨items, .inl (List.cons.inj hqueue).2⟩
      · rw [item] at hqueue
        cases items with
        | nil => cases hqueue
        | cons v items => exact ⟨items, .inr ⟨hdone, e, (List.cons.inj hqueue).2, he⟩⟩
    · simp [reading]
  | hear reading finished =>
    -- the sentinel is behind all items, so hearing it leaves the queue empty
    obtain ⟨items, hqueue | ⟨hdone, e, hqueue, he⟩⟩ := h.queue
    · rw [finished] at hqueue
      cases items <;> cases hqueue
    rw [finished] at hqueue
    cases items with
    | nil =>
      cases hqueue
      refine ⟨h.live, ⟨[], .inl rfl⟩, ?_, h.finishing, h.cut⟩
      intro e' he'
      rcases he' with he' | he'
      · cases he'
        exact ⟨hdone, rfl, he⟩
      · cases he'
    | cons => cases hqueue
  | leave leaving =>
    refine ⟨h.live, h.queue, ?_, h.finishing, h.cut⟩
    intro e he
    rcases he with he | he
    · cases he
    · cases he
      exact h.finished _ (.inl leaving)
  | quit => exact ⟨h.live, h.queue, by simp, h.finishing, h.cut⟩

theorem Move.traced {I : List ι → σ → Prop}
    (hresume : ∀ {taken x y answer}, I taken x → it.resume x = (y, answer) →
      I (taken ++ Next.items answer) y)
    (hmove : Move it s s') (h : I s.taken s.iterator) : I s'.taken s'.iterator := by
  cases hmove with
  | take iterating hx => exact hresume h hx
  | think iterating hx | stop iterating hx | raise iterating hx =>
    simpa [Next.items] using hresume h hx
  | clock | begin | refuse | pass | cut | unwind | die | tell | get | hear | leave | quit =>
    exact h

end

section
variable [Unicode] [FloatFormat] {σ ι : Type} {cfg : Config} {it : AsyncIterator σ ι}
  {s : Sys σ ι} {x : σ} {ok : Sys σ ι → Action → Prop}

/-- **What is heard is what came of the iterator**, in every run that is not left early and in which a
    suspended `put` is only cut where that is a verdict too. -/
theorem settled_of_run {Live : σ → Prop} {V : Option Exc → σ → Prop} (hV : Verdict it Live V)
    (hput : ∀ {s : Sys σ ι}, ok s .expire → ∀ v, s.producer = .putting v → ∀ e, V (some e) s.iterator)
    (hlive : Live x) (hx : ∀ e, V (some e) x) (hrun : Run (step cfg it) ok (initial cfg x) s) :
    s.Abandoned ∨ Settled Live V s := by
  apply hrun.invariant
  · intro t u a h hok hstep
    rcases step_cases cfg hstep with ⟨-, hmoves⟩ | ⟨rfl, ⟨v, hv⟩, rfl⟩ | ⟨-, -, rfl⟩
    · rcases h with h | h
      · exact .inl (hmoves.invariant (fun hs move => Move.abandoned move hs) h)
      · exact .inr (hmoves.invariant (fun hs move => hs.move hV move) h)
    · rcases h with h | h
      · exact .inl h
      have hcut : Settled Live V { t with producer := .closing .expired } :=
        h.goOn (by simp [hv]) (fun hlive => absurd trivial hlive) nofun fun _ => hput hok v hv
      exact .inr ⟨hcut.live, hcut.queue, hcut.finished, hcut.finishing, hcut.cut⟩
    · exact .inl (.inl rfl)
  · right
    unfold initial
    split
    · refine ⟨fun _ => hlive, ⟨[], .inl rfl⟩, ?_, nofun, by simp⟩
      intro e he
      rcases he with he | he <;> cases he
      exact ⟨rfl, rfl, hx _⟩
    · exact ⟨fun _ => hlive, ⟨[], .inl rfl⟩, by simp, nofun, fun _ => hx⟩

theorem traced_of_run {I : List ι → σ → Prop}
    (hresume : ∀ {taken x y answer}, I taken x → it.resume x = (y, answer) →
      I (taken ++ Next.items answer) y)
    (hx : I [] x) (hrun : Run (step cfg it) ok (initial cfg x) s) : I s.taken s.iterator := by
  apply hrun.invariant
  · intro t u a h hok hstep
    rcases step_cases cfg hstep with ⟨-, hmoves⟩ | ⟨-, -, rfl⟩ | ⟨-, -, rfl⟩
    · exact hmoves.invariant (fun hs move => Move.traced hresume move hs) h
    · exact h
    · exact h
  · unfold initial
    split <;> exact hx

theorem onItsWay_of_ended {e : Option Exc} (hrun : Run (step cfg it) ok (initial cfg x) s)
    (hend : s.consumer = .ended e) : s.onItsWay = s.received := by
  have hV : Verdict it (fun _ => True) (fun _ _ => True) :=
    ⟨fun _ _ => trivial, fun _ _ => trivial, fun _ _ => trivial, fun _ _ => trivial,
      fun _ _ => trivial⟩
  rcases settled_of_run hV (fun _ _ _ _ => trivial) trivial (fun _ => trivial) hrun with h | h
  · simp [Abandoned, hend] at h
  · obtain ⟨hdone, hqueue, -⟩ := h.finished e (.inr hend)
    simp [onItsWay, hdone, hqueue, Producer.hand]

end

end Sys

end Streaming
