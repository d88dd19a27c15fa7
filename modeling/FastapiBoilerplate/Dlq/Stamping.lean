import FastapiBoilerplate.Dlq.Returns

/-!
# Stamping and reading

A record is stamped, and read, any number of times on its way. What is read off it is the last
envelope it was stamped with, and its own headers are never touched; unless a count is too long for
`str`, or an instant is in a zone less than a second from UTC, which `fromisoformat` takes for UTC.
-/

open Lib Kafka

namespace Dlq

/-- The zone is UTC, or a second from it at least. -/
def Whole (t : Aware) : Prop := t.offset = 0 ∨ 1000000 ≤ t.offset.natAbs

theorem asRead_toUtc {t : Aware} {utc : Utc} (h : t.toUtc = some utc) :
    ∃ utc', t.asRead.toUtc = some utc' ∧ (utc' = utc ↔ Whole t) := by
  by_cases hsmall : t.offset.natAbs < 1000000
  · have hread : t.asRead = t.wall.aware := by
      simp [Aware.asRead, readOffset, hsmall, Utc.aware]
    refine ⟨t.wall, by rw [hread, toUtc_aware], ?_⟩
    rw [Aware.toUtc, utcOf] at h
    obtain ⟨hrange, ⟨⟩⟩ := Option.dite_none_right_eq_some.mp h
    simp only [Fin.ext_iff, Whole, Aware.micros] at hrange ⊢
    omega
  · have hread : t.asRead = t := by simp [Aware.asRead, readOffset, hsmall]
    exact ⟨utc, by rw [hread, h], by simp [Whole, Nat.le_of_not_lt hsmall]⟩

variable [Unicode]

/-- Whatever headers there were, the envelope is read off the stamped ones, with its instants in
    UTC and its error cut; the others are as they were; and an earlier envelope leaves no trace. -/
def RoundTrips (envelope : DeadLetterEnvelope) : Prop :=
  ∀ headers, ∃ out, stamp headers envelope = .ok out ∧
    (∀ message : ConsumedMessage, message.headers = out → ∃ first due error,
      envelope.firstFailedAt.toUtc = some first ∧ envelope.notBefore.toUtc = some due ∧
      error = shown envelope.error ∧ error.length ≤ maxErrorLength ∧ read message = .ok (some
        { envelope with firstFailedAt := first.aware, notBefore := due.aware, error })) ∧
    strip out = strip headers ∧
    ∀ previous between, stamp headers previous = .ok between → stamp between envelope = .ok out

/-- **The envelope comes back** exactly if its counts can be written and its instants are in zones
    that are read back. -/
theorem roundTrips_iff_readable (envelope : DeadLetterEnvelope)
    (htopic : Encodable envelope.originTopic) (herror : Encodable envelope.error)
    (hfirst : envelope.firstFailedAt.toUtc.isSome) (hdue : envelope.notBefore.toUtc.isSome) :
    RoundTrips envelope ↔
      (Short envelope.originPartition ∧ Short envelope.originOffset ∧ Short envelope.attempts ∧
        Short envelope.replays) ∧
      Whole envelope.firstFailedAt ∧ Whole envelope.notBefore := by
  obtain ⟨first, hfirst⟩ := Option.isSome_iff_exists.mp hfirst
  obtain ⟨due, hdue⟩ := Option.isSome_iff_exists.mp hdue
  obtain ⟨first', hfirst', hwhole⟩ := asRead_toUtc hfirst
  obtain ⟨due', hdue', hwhole'⟩ := asRead_toUtc hdue
  -- what is read back has its instants in the zones that `fromisoformat` gives them
  have hread {headers out : Headers} (hstamp : stamp headers envelope = .ok out)
      {message : ConsumedMessage} (hmessage : message.headers = out) : read message = .ok (some
        { envelope with
          firstFailedAt := first'.aware, notBefore := due'.aware, error := shown envelope.error }) := by
    obtain ⟨error, hcut, hread⟩ := read_stamped hfirst' hdue' hstamp
      (hmessage.trans (List.append_nil out).symm)
    cases (truncateError_eq envelope.error).symm.trans hcut
    exact hread
  rw [← hwhole, ← hwhole']
  constructor
  · intro h
    obtain ⟨out, hstamp, hback, -⟩ := h []
    obtain ⟨-, hpartition, hoffset, hattempts, -, hreplays⟩ :=
      (returns_stamp [] envelope).mp ⟨out, hstamp⟩
    obtain ⟨first, due, error, hfirst₁, hdue₁, -, -, hback⟩ :=
      hback ⟨⟨[], 0⟩, 0, none, none, out⟩ rfl
    cases hfirst.symm.trans hfirst₁
    cases hdue.symm.trans hdue₁
    -- they are those of the envelope only if the zones are
    have hsame := Option.some.inj (Except.ok.inj ((hread hstamp rfl).symm.trans hback))
    have hfirst₂ := congrArg (fun e => e.firstFailedAt.wall) hsame
    have hdue₂ := congrArg (fun e => e.notBefore.wall) hsame
    exact ⟨⟨hpartition, hoffset, hattempts, hreplays⟩, hfirst₂, hdue₂⟩
  · rintro ⟨⟨hpartition, hoffset, hattempts, hreplays⟩, rfl, rfl⟩ headers
    obtain ⟨out, hstamp⟩ := (returns_stamp headers envelope).mpr
      ⟨htopic, hpartition, hoffset, hattempts, encodable_kept herror, hreplays⟩
    refine ⟨out, hstamp, fun message hmessage => ?_, (stamp_eq_ok hstamp).strip_eq,
      fun previous between hbetween => ?_⟩
    · exact ⟨_, _, _, hfirst, hdue, rfl, length_shown _, hread hstamp hmessage⟩
    · rw [stamp, (stamp_eq_ok hbetween).strip_eq]
      exact hstamp

/-- An envelope of one failure, of which both instants are a midnight in a zone. -/
def failedAtMidnight (offset : ℤ) (h : offset.natAbs < microsPerDay) : DeadLetterEnvelope :=
  let midnight : Aware := ⟨⟨63082281600000000, newYear_lt⟩, offset, h⟩
  ⟨lit "orders", 0, 1, 1, Nat.one_pos, midnight, midnight, lit "boom", 0⟩

omit [Unicode] in
/-- Two hours ahead of UTC. -/
theorem roundTrips_two_hours_ahead :
    letI : Unicode := .ascii
    RoundTrips (failedAtMidnight 7200000000 (by decide)) := by
  let : Unicode := .ascii
  refine (roundTrips_iff_readable _ (by decide) (by decide) (by decide +kernel)
    (by decide +kernel)).mpr ⟨⟨?_, ?_, ?_, ?_⟩, .inr (by decide), .inr (by decide)⟩
  all_goals exact short_of_le_one (by decide)

theorem not_roundTrips {envelope : DeadLetterEnvelope} (utc : Utc)
    (h : ((stamp [] envelope).toOption.bind fun out =>
      (read ⟨⟨[], 0⟩, 0, none, none, out⟩).toOption.bind fun found =>
        found.map fun found => found.firstFailedAt.wall) = some utc)
    (hne : envelope.firstFailedAt.toUtc ≠ some utc) : ¬ RoundTrips envelope := by
  intro hback
  obtain ⟨out, hstamp, hback, -⟩ := hback []
  obtain ⟨first, due, error, hfirst, -, -, -, hread⟩ := hback ⟨⟨[], 0⟩, 0, none, none, out⟩ rfl
  rw [hstamp] at h
  change ((read _).toOption.bind _) = _ at h
  rw [hread] at h
  exact hne (hfirst.trans h)

omit [Unicode] in
/-- Half a second ahead of UTC: the instants are read off as half a second later. -/
theorem half_a_second_ahead_lost :
    letI : Unicode := .ascii
    let envelope := failedAtMidnight 500000 (by decide)
    Encodable envelope.originTopic ∧ Encodable envelope.error ∧
      envelope.firstFailedAt.toUtc.isSome ∧ ¬ RoundTrips envelope := by
  let : Unicode := .ascii
  exact ⟨by decide, by decide, by decide +kernel, not_roundTrips ⟨63082281600000000, by decide⟩
    (by decide +kernel) (by decide +kernel)⟩

end Dlq
