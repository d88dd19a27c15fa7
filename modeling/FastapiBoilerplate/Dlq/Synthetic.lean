import FastapiBoilerplate.Dlq.Router

/-!
# The key that was never there

A record with neither a key nor a value is given a key by the hop that routes it first, and is
flagged so that `replay` refuses to put that key on the origin topic. The flag is one of the
package's own headers. A later hop sees a record with a key, stamps it, and stamping drops every
header of the package it does not write itself: the flag is gone after the second hop.

So the flag is on the dead letter exactly if the record went there at its first failure.
-/

open Lib Kafka

namespace Dlq

/-- What a handler raised, and when the router was called with it. -/
structure Failure where
  exc : Exc
  now : Utc

/-- A further failure: the place the copy was consumed from, and what was raised there. -/
structure Hop extends Failure where
  number : ℕ
  offset : ℕ

section
variable [Unicode]

/-- The copy that is left of a record after a failure and some further hops, each consuming what
    the one before published. There is none if a hop raised, or if one was to consume a copy that
    had been dead-lettered. -/
def DeadLetterRouter.walk (router : DeadLetterRouter) (message : ConsumedMessage)
    (failure : Failure) : List Hop → Option Routed
  | [] => (router.route message failure.exc failure.now).toOption
  | hop :: hops =>
    match router.route message failure.exc failure.now with
    | .error _ => none
    | .ok routed =>
      if routed.deadLettered then none
      else router.walk (routed.record.consumed hop.number hop.offset) hop.toFailure hops

/-- No replayer puts the record back, wherever it is read from. -/
def Refused (record : Outgoing) : Prop :=
  ∀ (replayer : DeadLetterReplayer) (number offset : ℕ), ∃ exc,
    replayer.replay (record.consumed number offset) = .error exc ∧
      exc.isInstance .replayNotPossibleError = true

/-! ## The first hop flags -/

variable {message : ConsumedMessage} {router : DeadLetterRouter} {routed : Routed}

theorem replay_flagged (hflag : (message.header headerSyntheticKey).isSome)
    (hread : ∀ exc, read message = .error exc → exc.isInstance .malformedEnvelopeError = true)
    (replayer : DeadLetterReplayer) : ∃ exc, replayer.replay message = .error exc ∧
      exc.isInstance .replayNotPossibleError = true := by
  unfold DeadLetterReplayer.replay
  split
  · rename_i raised h
    rw [if_pos (hread raised h)]
    exact ⟨_, rfl, ExcClass.isInstance_error _ _ _⟩
  · exact ⟨_, rfl, ExcClass.isInstance_error _ _ _⟩
  · unfold DeadLetterReplayer.replayEnvelope
    rw [if_pos hflag]
    exact ⟨_, rfl, ExcClass.isInstance_error _ _ _⟩

theorem flagged_of_route {exc : Exc} {now : Utc}
    (hneither : message.key = none ∧ message.value = none)
    (h : router.route message exc now = .ok routed) :
    routed.record.key.isSome ∧
      (routed.record.headers.lookup headerSyntheticKey).isSome ∧ Refused routed.record := by
  have hroute := DeadLetterRouter.route_eq_ok h
  obtain ⟨-, -, hkey⟩ := republish_eq_ok hroute.republished
  obtain ⟨hsome, stamped, hstamped, hheaders⟩ := republishKey_synthetic hneither hkey
  have hflag : (routed.record.headers.lookup headerSyntheticKey).isSome := by
    rw [hheaders, List.lookup_append, hstamped.lookup_other _ (by decide) (by decide)]
    rfl
  refine ⟨hsome, hflag, ?_⟩
  obtain ⟨⟨first, hfirst⟩, ⟨due, hdue⟩⟩ := hroute.inUtc
  intro replayer number offset
  have hfirst' : (routed.record.consumed number offset).header headerFirstFailedAt =
      some (asciiBytes (isoformat first.aware)) := by
    show routed.record.headers.lookup _ = _
    rw [hheaders, List.lookup_append, hstamped.firstFailedAt, hfirst]
    rfl
  have hdue' : (routed.record.consumed number offset).header headerNotBefore =
      some (asciiBytes (isoformat due.aware)) := by
    show routed.record.headers.lookup _ = _
    rw [hheaders, List.lookup_append, hstamped.notBefore, hdue]
    rfl
  have hflag' : ((routed.record.consumed number offset).header headerSyntheticKey).isSome := hflag
  exact replay_flagged hflag' (fun _ => read_error_of_utc hfirst' hdue') replayer

/-! ## Every later one drops the flag -/

theorem unflagged_of_route {exc : Exc} {now : Utc} (hkey : message.key.isSome)
    (h : router.route message exc now = .ok routed) :
    routed.record.key.isSome ∧ routed.record.headers.lookup headerSyntheticKey = none := by
  have hroute := DeadLetterRouter.route_eq_ok h
  obtain ⟨-, -, hkept⟩ := republish_eq_ok hroute.republished
  obtain ⟨hsame, hstamped⟩ := republishKey_kept (.inl hkey) hkept
  exact ⟨hsame ▸ hkey, hstamped.lookup_other _ (by decide) (by decide)⟩

theorem unflagged_of_walk {failure : Failure} {hops : List Hop} (hkey : message.key.isSome)
    (h : router.walk message failure hops = some routed) :
    routed.record.headers.lookup headerSyntheticKey = none := by
  induction hops generalizing message failure with
  | nil =>
    unfold DeadLetterRouter.walk at h
    cases hroute : router.route message failure.exc failure.now with
    | error => simp [hroute, Except.toOption] at h
    | ok routed' =>
      obtain rfl : routed' = routed := by simpa [hroute, Except.toOption] using h
      exact (unflagged_of_route hkey hroute).2
  | cons hop hops ih =>
    unfold DeadLetterRouter.walk at h
    split at h
    · cases h
    rename_i copy hroute
    split at h
    · cases h
    · exact ih (unflagged_of_route hkey hroute).1 h

/-! ## The dead letter -/

/-- The dead letter of a record that had neither a key nor a value carries the flag, and is
    refused by every replayer, exactly if the record was dead-lettered by its first hop. -/
theorem synthetic_key_kept_iff (router : DeadLetterRouter) (message : ConsumedMessage)
    (hkey : message.key = none) (hvalue : message.value = none) (failure : Failure)
    (hops : List Hop) (routed : Routed) (hwalk : router.walk message failure hops = some routed)
    (hdead : routed.deadLettered = true) :
    ((routed.record.headers.lookup headerSyntheticKey).isSome ∧ Refused routed.record) ↔
      router.deadLetters message failure.exc = true := by
  cases hops with
  | nil =>
    unfold DeadLetterRouter.walk at hwalk
    cases hroute : router.route message failure.exc failure.now with
    | error => simp [hroute, Except.toOption] at hwalk
    | ok first =>
      obtain rfl : first = routed := by simpa [hroute, Except.toOption] using hwalk
      have hfirst := (DeadLetterRouter.route_eq_ok hroute).deadLettered
      have hflag := flagged_of_route ⟨hkey, hvalue⟩ hroute
      exact ⟨fun _ => hfirst ▸ hdead, fun _ => hflag.2⟩
  | cons hop =>
    unfold DeadLetterRouter.walk at hwalk
    split at hwalk
    · cases hwalk
    rename_i first hroute
    have hfirst := (DeadLetterRouter.route_eq_ok hroute).deadLettered
    have hsome := (flagged_of_route ⟨hkey, hvalue⟩ hroute).1
    split at hwalk
    · cases hwalk
    rename_i halive
    -- the first hop left a copy with a key on a tier, and no later one writes the flag
    have hnone := unflagged_of_walk hsome hwalk
    constructor
    · rintro ⟨hflag, -⟩
      rw [hnone] at hflag
      cases hflag
    · intro h
      exact absurd (hfirst.trans h) halive

end

/-! ## One record, two ways down -/

/-- A record from a foreign producer, with neither key nor value. -/
def bareRecord : ConsumedMessage where
  partition := ⟨lit "orders", 0⟩
  offset := 7
  key := none
  value := none
  headers := []

/-- A ladder of one tier. -/
def oneTier : DeadLetterRouter := { policy := { tiers := 1 } }

/-- The start of the year 2000. -/
def newYear : Utc := ⟨63082281600000000, newYear_lt⟩

def transient : Failure := ⟨ExcClass.valueError.error (lit "boom"), newYear⟩

def permanent : Failure := ⟨ExcClass.messageNotDecodableError.error (lit "not JSON"), newYear⟩

/-- Undecodable, the record is a dead letter at once, flagged, and nobody replays it. -/
theorem synthetic_key_kept_of_permanent :
    letI : Unicode := .ascii
    ∃ routed, oneTier.walk bareRecord permanent [] = some routed ∧ routed.deadLettered = true ∧
      (routed.record.headers.lookup headerSyntheticKey).isSome ∧ Refused routed.record := by
  let : Unicode := .ascii
  have hwalk : (oneTier.walk bareRecord permanent []).any (·.deadLettered) = true := by
    decide +kernel
  obtain ⟨routed, hrouted, hdead⟩ := Option.any_eq_true _ _ |>.mp hwalk
  have hkept := synthetic_key_kept_iff oneTier bareRecord rfl rfl permanent [] routed hrouted hdead
  exact ⟨routed, hrouted, hdead, hkept.mpr (by decide +kernel)⟩

/-- Failing twice, it reaches the dead-letter topic without the flag, and a replay publishes the
    invented key to the origin topic. -/
theorem synthetic_key_replayed_after_tier :
    letI : Unicode := .ascii
    ∃ routed replayed, bareRecord.key = none ∧ bareRecord.value = none ∧
      oneTier.walk bareRecord transient [{ transient with number := 0, offset := 0 }] =
        some routed ∧ routed.deadLettered = true ∧
      routed.record.headers.lookup headerSyntheticKey = none ∧
      ({} : DeadLetterReplayer).replay (routed.record.consumed 0 0) = .ok replayed ∧
      replayed.record.topic = lit "orders" ∧ replayed.record.key = some (lit "orders:0:7") := by
  let : Unicode := .ascii
  have hwalk : (oneTier.walk bareRecord transient
      [{ transient with number := 0, offset := 0 }]).any (fun routed => routed.deadLettered ∧
        routed.record.headers.lookup headerSyntheticKey = none ∧
        (({} : DeadLetterReplayer).replay (routed.record.consumed 0 0)).toOption.any
          (fun replayed => replayed.record.topic = lit "orders" ∧
            replayed.record.key = some (lit "orders:0:7"))) = true := by
    decide +kernel
  obtain ⟨routed, hrouted, h⟩ := Option.any_eq_true _ _ |>.mp hwalk
  simp only [decide_eq_true_eq] at h
  obtain ⟨hdead, hflag, hreplay⟩ := h
  obtain ⟨replayed, hreplayed, h⟩ := Option.any_eq_true _ _ |>.mp hreplay
  simp only [decide_eq_true_eq] at h
  refine ⟨routed, replayed, rfl, rfl, hrouted, hdead, hflag, ?_, h⟩
  cases hrep : ({} : DeadLetterReplayer).replay (routed.record.consumed 0 0) with
  | error => simp [hrep, Except.toOption] at hreplayed
  | ok out =>
    obtain rfl : out = replayed := by simpa [hrep, Except.toOption] using hreplayed
    rfl

end Dlq
