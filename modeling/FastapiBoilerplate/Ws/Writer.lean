import FastapiBoilerplate.Lib.Run
import FastapiBoilerplate.Ws.Answered

/-!
# The writer of a connection

`_write_outbound` and `_flush` of `src/ws/connection.py`, with the offers of whoever has something
for the connection. The sentinel is put by the offer that overflows or by the flush, whichever comes
first, and nothing is put after it; so a writer that meets it has written all that was accepted.
-/

namespace Ws

open Lib

namespace Connection

variable {c : Connection}

/-- `get` of the queue, when it is not empty. -/
def get (c : Connection) : Option (Option Text × Connection) :=
  match h : c.outbound.queue.items with
  | [] => none
  | item :: rest =>
    have hle : rest.length ≤ c.outbound.queue.items.length := h ▸ Nat.le_succ _
    some (item, { c with outbound := { c.outbound with
      queue := ⟨rest, hle.trans c.outbound.queue.fits⟩
      room := fun hopen => hle.trans (c.outbound.room hopen) } })

theorem get_cases (c : Connection) : (c.outbound.queue.items = [] ∧ c.get = none) ∨
    ∃ item c', c.get = some (item, c') ∧
      c.outbound.queue.items = item :: c'.outbound.queue.items ∧
      c'.outbound.terminated = c.outbound.terminated := by
  unfold get
  split
  · exact .inl ⟨‹_›, rfl⟩
  · exact .inr ⟨_, _, rfl, ‹_›, rfl⟩

/-- The start of `_flush`: the sentinel, unless it is there. How the connection is to be closed
    stays what it was. -/
def stop (c : Connection) : Connection :=
  if h : c.outbound.terminated = true then c
  else { c with
    outbound := c.outbound.stop (open_of_not h)
    closing := some c.closeCode
    closing_of_terminated := fun _ => rfl }

theorem offer_of_terminated (h : c.outbound.terminated = true) (payload : Text) :
    c.offer payload = (false, c) := by
  rw [offer, dif_pos h]

theorem offer_of_open (h : c.outbound.terminated = false) (payload : Text) : ∃ ok c',
    c.offer payload = (ok, c') ∧ c'.outbound.terminated = !ok ∧ c'.outbound.queue.items =
      c.outbound.queue.items ++ [if ok then some payload else none] := by
  rw [offer, dif_neg (Bool.eq_false_iff.mp h)]
  split
  · exact ⟨_, _, rfl, rfl, Queue.items_get_putNowait _⟩
  · exact ⟨_, _, rfl, h, Outbound.items_push (Nat.lt_of_not_le ‹_›)⟩

end Connection

namespace Writer

/-- The writer ends at the sentinel, when a write fails, or cancelled by its scope when the flush
    takes too long. -/
inductive Ending
  | stopped
  | failed
  | cancelled
  deriving DecidableEq

inductive Phase
  | waiting
  | sending (frame : Text)
  | ended (how : Ending)
  deriving DecidableEq

def Phase.inHand : Phase → List Text
  | sending frame => [frame]
  | waiting | ended _ => []

/-- A connection and its writer. What was accepted and written, and whether an offer was refused,
    is kept for the statements. -/
structure Sys where
  connection : Connection
  phase : Phase := .waiting
  flushing : Bool := false
  accepted : List Text := []
  written : List Text := []
  refused : Bool := false

inductive Action
  | offer (payload : Text)
  | get
  | sent (ok : Bool)
  | flush
  | flushTimeout

namespace Sys

def offer (s : Sys) (payload : Text) : Sys :=
  let answer := s.connection.offer payload
  { s with
    connection := answer.2
    accepted := if answer.1 then s.accepted ++ [payload] else s.accepted
    refused := s.refused || !answer.1 }

def step (s : Sys) : Action → Option Sys
  | .offer payload => some (s.offer payload)
  | .get =>
    if s.phase = .waiting then
      s.connection.get.map fun (item, connection) =>
        { s with connection, phase := item.elim (.ended .stopped) .sending }
    else none
  | .sent ok =>
    match s.phase with
    | .sending frame =>
      some (if ok then { s with phase := .waiting, written := s.written ++ [frame] }
        else { s with phase := .ended .failed })
    | _ => none
  | .flush =>
    if s.flushing then none else some { s with flushing := true, connection := s.connection.stop }
  | .flushTimeout =>
    match s.flushing, s.phase with
    | false, _ | true, .ended _ => none
    | true, _ => some { s with phase := .ended .cancelled }

/-- While the writer goes on, what was accepted is written, in hand or in the queue. -/
def Pending (s : Sys) : Prop :=
  ∃ frames, s.accepted = s.written ++ s.phase.inHand ++ frames ∧
    s.connection.outbound.queue.items =
      frames.map some ++ if s.connection.outbound.terminated then [none] else []

structure Inv (s : Sys) : Prop where
  refused : s.refused = true → s.connection.outbound.terminated = true
  written : s.written <+: s.accepted
  pending : (∀ how, s.phase ≠ .ended how) → s.Pending
  stopped : s.phase = .ended .stopped →
    s.connection.outbound.terminated = true ∧ s.written = s.accepted

variable {s s' : Sys} {a : Action}

theorem Inv.put (h : s.Inv) (hopen : s.connection.outbound.terminated = false)
    {connection : Connection} {flushing refused : Bool} (ok : Bool) (payload : Text)
    (hterminated : connection.outbound.terminated = !ok)
    (hitems : connection.outbound.queue.items =
      s.connection.outbound.queue.items ++ [if ok then some payload else none])
    (hrefused : refused = true → ok = false) :
    Inv { s with
      connection, flushing, refused
      accepted := if ok then s.accepted ++ [payload] else s.accepted } := by
  constructor
  case refused =>
    intro hr
    rw [hterminated, hrefused hr]
    rfl
  case written =>
    cases ok with
    | true => exact h.written.trans (List.prefix_append _ _)
    | false => exact h.written
  case pending =>
    intro hgoes
    obtain ⟨frames, haccepted, hqueue⟩ := h.pending hgoes
    rw [hqueue, hopen] at hitems
    cases ok with
    | true => exact ⟨frames ++ [payload], by simp [haccepted], by simp [hitems, hterminated]⟩
    | false => exact ⟨frames, haccepted, by simp [hitems, hterminated]⟩
  case stopped => exact fun hs => absurd (hopen.symm.trans (h.stopped hs).1) nofun

theorem Inv.step (h : s.Inv) (hstep : s.step a = some s') : s'.Inv := by
  cases a with simp only [Sys.step] at hstep
  | offer payload =>
    cases hstep
    unfold Sys.offer
    cases hended : s.connection.outbound.terminated with
    | true =>
      rw [Connection.offer_of_terminated hended]
      exact { h with refused := fun _ => hended }
    | false =>
      obtain ⟨ok, connection, hoffer, hterminated, hitems⟩ :=
        Connection.offer_of_open hended payload
      rw [hoffer]
      refine h.put hended ok payload hterminated hitems ?_
      cases hr : s.refused with
      | true => exact absurd (hended.symm.trans (h.refused hr)) Bool.noConfusion
      | false => simp
  | get =>
    -- what is taken is the first frame that was accepted and not written, or the sentinel
    obtain ⟨hphase, hstep⟩ := Option.ite_none_right_eq_some.mp hstep
    rcases s.connection.get_cases with ⟨-, hget⟩ | ⟨item, connection, hget, hitems, hterminated⟩
    · rw [hget] at hstep
      cases hstep
    rw [hget] at hstep
    cases hstep
    obtain ⟨frames, haccepted, hqueue⟩ := h.pending (by simp [hphase])
    rw [hitems, ← hterminated] at hqueue
    rw [hphase] at haccepted
    have hrefused : s.refused = true → connection.outbound.terminated = true :=
      fun hr => hterminated.trans (h.refused hr)
    cases frames with
    | nil =>
      split at hqueue
      · obtain ⟨rfl, -⟩ := List.cons.inj hqueue
        refine ⟨hrefused, h.written, fun hgoes => absurd rfl (hgoes _), fun _ => ⟨‹_›, ?_⟩⟩
        simpa [Phase.inHand] using haccepted.symm
      · cases hqueue
    | cons frame frames =>
      obtain ⟨rfl, hrest⟩ := List.cons.inj hqueue
      refine ⟨hrefused, h.written, fun _ => ⟨frames, ?_, hrest⟩, by rintro ⟨⟩⟩
      simpa [Phase.inHand] using haccepted
  | sent ok =>
    split at hstep <;> cases hstep
    rename_i frame hphase
    obtain ⟨frames, haccepted, hqueue⟩ := h.pending (by simp [hphase])
    rw [hphase] at haccepted
    cases ok with
    | false => exact ⟨h.refused, h.written, fun hgoes => absurd rfl (hgoes _), by rintro ⟨⟩⟩
    | true =>
      refine ⟨h.refused, ⟨frames, haccepted.symm⟩, fun _ => ⟨frames, ?_, hqueue⟩, by rintro ⟨⟩⟩
      rw [haccepted]
      simp [Phase.inHand]
  | flush =>
    obtain ⟨-, hstep⟩ := Option.ite_none_left_eq_some.mp hstep
    cases hstep
    unfold Connection.stop
    split
    · exact { h with }
    -- `stop` puts the sentinel into the slot that is kept for it
    · have hopen := Bool.eq_false_of_not_eq_true ‹_›
      exact h.put hopen false [] rfl (Queue.items_get_putNowait _) fun _ => rfl
  | flushTimeout =>
    split at hstep <;> cases hstep
    exact ⟨h.refused, h.written, fun hgoes => absurd rfl (hgoes _), by rintro ⟨⟩⟩

/-- Steps of the writer, with no write that fails. -/
def Writes (_ : Sys) (a : Action) : Prop := a = .get ∨ a = .sent true

theorem exists_get {item : Option Text} {rest : List (Option Text)} (hphase : s.phase = .waiting)
    (hqueue : s.connection.outbound.queue.items = item :: rest) :
    ∃ c, Run step Writes s
        { s with connection := c, phase := item.elim (.ended .stopped) .sending } ∧
      c.outbound.queue.items = rest := by
  rcases s.connection.get_cases with ⟨hempty, -⟩ | ⟨item', c, hget, hitems, -⟩
  · cases hempty.symm.trans hqueue
  obtain ⟨rfl, hrest⟩ := List.cons.inj (hitems.symm.trans hqueue)
  exact ⟨c, .single (a := .get) (.inl rfl) (by simp [step, hphase, hget]), hrest⟩

theorem run_sent {frame : Text} (hphase : s.phase = .sending frame) :
    Run step Writes s { s with phase := .waiting, written := s.written ++ [frame] } :=
  .single (a := .sent true) (.inr rfl) (by simp [step, hphase])

/-- The writer gets to the sentinel, having written what is before it. -/
theorem exists_stopped {frames : List Text} (hphase : s.phase = .waiting)
    (haccepted : s.accepted = s.written ++ frames)
    (hqueue : s.connection.outbound.queue.items = frames.map some ++ [none]) :
    ∃ t, Run step Writes s t ∧ t.phase = .ended .stopped ∧ t.written = s.accepted := by
  induction frames generalizing s with
  | nil =>
    obtain ⟨c, hget, -⟩ := exists_get hphase hqueue
    exact ⟨_, hget, rfl, by simpa using haccepted.symm⟩
  | cons frame frames ih =>
    obtain ⟨c, hget, hrest⟩ := exists_get hphase hqueue
    obtain ⟨t, hrun, ht⟩ := @ih
      { s with connection := c, phase := .waiting, written := s.written ++ [frame] } rfl
      (by simpa using haccepted) hrest
    exact ⟨t, (hget.trans (run_sent rfl)).trans hrun, ht⟩

theorem Inv.exists_stopped (h : s.Inv) (hended : s.connection.outbound.terminated = true)
    (hgoes : ∀ how, s.phase ≠ .ended how) :
    ∃ t, Run Sys.step Writes s t ∧ t.phase = .ended .stopped ∧ t.written = s.accepted := by
  obtain ⟨frames, haccepted, hqueue⟩ := h.pending hgoes
  rw [hended] at hqueue
  cases hphase : s.phase with
  | waiting =>
    exact Sys.exists_stopped hphase (by simpa [hphase, Phase.inHand] using haccepted) hqueue
  | sending frame =>
    obtain ⟨t, hrun, ht⟩ := @Sys.exists_stopped
      { s with phase := .waiting, written := s.written ++ [frame] } frames rfl
      (by simpa [hphase, Phase.inHand] using haccepted) hqueue
    exact ⟨t, (run_sent hphase).trans hrun, ht⟩
  | ended how => exact absurd hphase (hgoes how)

end Sys

/-- **The outbound queue.** Whoever offers and whenever, and whatever becomes of the writes: there
    is room for whatever is put; what is written is a beginning of what was accepted, in its order;
    after an offer that was refused none is accepted; and once the sentinel is put, by an overflow
    or by the flush, a writer that goes on gets to it, and has then written all that was
    accepted. -/
theorem writes_accepted_in_order {c : Connection} {s : Sys} (hempty : c.outbound.queue.items = [])
    (hopen : c.outbound.terminated = false) (hrun : Run Sys.step Always { connection := c } s) :
    (s.connection.outbound.terminated = false →
      ∀ item, (s.connection.outbound.queue.putNowait item).isSome) ∧
    s.written <+: s.accepted ∧
    (s.refused = true → ∀ payload, (s.connection.offer payload).1 = false) ∧
    (s.connection.outbound.terminated = true → (∀ how, s.phase ≠ .ended how) →
      ∃ t, Run Sys.step Sys.Writes s t ∧ t.phase = .ended .stopped ∧ t.written = s.accepted) ∧
    (s.phase = .ended .stopped → s.written = s.accepted) := by
  have hnew : Sys.Inv { connection := c } := by
    refine ⟨nofun, List.prefix_rfl, fun _ => ⟨[], rfl, ?_⟩, nofun⟩
    rw [hempty, hopen]
    rfl
  have h : s.Inv := hrun.invariant (fun h _ hstep => h.step hstep) hnew
  refine ⟨fun ho => Queue.isSome_putNowait (Outbound.qsize_lt ho), h.written, fun hr payload => ?_,
    h.exists_stopped, fun hs => (h.stopped hs).2⟩
  rw [Connection.offer_of_terminated (h.refused hr)]

/-- One frame fits, a second overflows: the first is written all the same. -/
theorem writes_accepted_before_overflow :
    ∃ s, Run Sys.step Always
        { connection := (Hub.narrowHub 1 zero_le_one le_rfl).connections () } s ∧
      (s.phase = .ended .stopped ∧ s.refused = true ∧ s.accepted = [lit "a"]) ∧
      s.written = s.accepted :=
  Run.exists_of_replay_and [.offer (lit "a"), .offer (lit "b"), .get, .sent true, .get]
    (by decide +kernel) fun hrun h => (writes_accepted_in_order rfl rfl hrun).2.2.2.2 h.1

end Writer

end Ws
