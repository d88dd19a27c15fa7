import FastapiBoilerplate.Dlq.Returns

/-!
# When a failed record can be routed

Once `route` has come to its publish it has done what it is for: there is one copy, or the
publisher raised. `Routable` says when it does: the headers can be read or their complaint can be
dealt with, the origin is no rung of a ladder, the record is due while there is a calendar, and
everything the copy has to carry can be written.
-/

open Lib Kafka

namespace Dlq

section
variable [Unicode]

/-! ## The conditions -/

namespace DeadLetterRouter

/-- Whether the failure that brings a record to `attempts` sends it to a tier. -/
def climbs (router : DeadLetterRouter) (exc : Exc) (attempts : ℕ) : Bool :=
  !router.nonRetryable.any exc.isInstance && attempts ≤ router.policy.tiers

/-- The delay of that failure, zero for the dead-letter topic. -/
def delay (router : DeadLetterRouter) (exc : Exc) (attempts : ℕ) : ℚ :=
  if router.climbs exc attempts then router.policy.wait attempts else 0

/-- What is needed to route a record whose headers can be read: an envelope, or none and a count
    of replays. -/
structure RoutableAs (router : DeadLetterRouter) (message : ConsumedMessage) (exc : Exc)
    (now : Utc) (previous : Option DeadLetterEnvelope) (replays : ℤ) : Prop where
  usable : router.policy.Usable (router.originOf previous message)
  inTime : InTime now (router.delay exc ((previous.map (·.attempts)).getD 0 + 1))
  error : Encodable (kept (describe exc))
  attempts : ∀ envelope ∈ previous, Short (envelope.attempts + 1)
  first : previous = none → 0 ≤ replays ∧ Encodable (router.originOf none message) ∧
    Short message.partition.number ∧ Short message.offset

/-- What is needed to route a record whose headers cannot be read. -/
structure RoutableUnread (router : DeadLetterRouter) (message : ConsumedMessage) : Prop where
  usable : router.policy.Usable (router.originOf none message)
  noStray : ¬ HasStray message
  topic : Encodable message.topic
  partition : Short message.partition.number
  offset : Short message.offset

/-- What is needed to route a record. -/
def Routable (router : DeadLetterRouter) (message : ConsumedMessage) (exc : Exc) (now : Utc) :
    Prop :=
  match readHeaders message with
  | .ok (previous, replays) => router.RoutableAs message exc now previous replays
  | .error _ => router.RoutableUnread message

/-! ## They are the conditions -/

omit [Unicode] in
theorem delay_nonneg (router : DeadLetterRouter) (exc : Exc) (attempts : ℕ) :
    0 ≤ router.delay exc attempts := by
  unfold delay
  split
  · exact (router.policy.wait_pos attempts).le
  · exact le_refl 0

variable {router : DeadLetterRouter} {message : ConsumedMessage} {exc : Exc} {now : Utc}
  {previous : Option DeadLetterEnvelope} {replays : ℤ}

theorem nextTier_eq {origin : Text} {ladder : RetryLadder}
    (hladder : router.policy.ladderFor origin = .ok ladder) (exc : Exc) (k : ℕ) :
    router.nextTier ladder exc (k + 1) = .ok (if router.climbs exc (k + 1) then
      some ⟨k + 1, router.policy.retryTopic origin (k + 1), router.policy.wait (k + 1)⟩
    else none) := by
  obtain ⟨-, -, hlength, htiers⟩ := RetryPolicy.ladderFor_eq_ok hladder
  have hbounded := ((RetryPolicy.returns_ladderFor _ _).mp ⟨ladder, hladder⟩).bounded
  unfold nextTier climbs
  by_cases hpermanent : router.nonRetryable.any exc.isInstance = true
  · simp [hpermanent]
  rw [Bool.not_eq_true] at hpermanent
  simp only [hpermanent, Bool.false_eq_true, if_false, Bool.not_false, Bool.true_and]
  rw [RetryLadder.destination, if_neg (by omega), Nat.add_sub_cancel]
  by_cases hk : k + 1 ≤ router.policy.tiers
  · obtain ⟨tier, htier⟩ : ∃ tier, ladder.tiers[k]? = some tier :=
      ⟨_, List.getElem?_eq_getElem (by omega)⟩
    have hdelay := RetryPolicy.tierDelay_eq (hbounded k hk)
    obtain ⟨delay, hdelay', h⟩ := bind_eq_ok.mp (htiers k tier htier)
    obtain rfl := pure_eq_ok.mp h
    cases hdelay.symm.trans hdelay'
    simp [htier, hk]
  · simp [hk, hlength]
    omega

/-- The envelope the router stamps on a readable record. -/
def stamped (router : DeadLetterRouter) (message : ConsumedMessage) (exc : Exc) (now : Utc)
    (due : Aware) (previous : Option DeadLetterEnvelope) (replays : ℤ) : DeadLetterEnvelope :=
  nextEnvelope message (router.originOf previous message) now due (shown (describe exc))
    replays.toNat previous

/-- Where it sends the record. -/
def destination (router : DeadLetterRouter) (exc : Exc) (origin : Text) (attempts : ℕ) : Text :=
  if router.climbs exc attempts then router.policy.retryTopic origin attempts
  else router.policy.deadLetterTopic origin

theorem routeReadable_eq (husable : router.policy.Usable (router.originOf previous message)) :
    let attempts := (previous.map (·.attempts)).getD 0 + 1
    router.routeReadable message exc now previous replays = (do
      let envelope ← advance previous message now (router.delay exc attempts)
        (shown (describe exc)) replays (some (router.originOf previous message))
      let record ← republish message
        (router.destination exc (router.originOf previous message) attempts) envelope
      return { record, attempts, delay := router.delay exc attempts,
               deadLettered := !router.climbs exc attempts, envelope }) := by
  intro attempts
  obtain ⟨ladder, hladder⟩ := (RetryPolicy.returns_ladderFor _ _).mpr husable
  obtain ⟨horigin, hdead, -, -⟩ := RetryPolicy.ladderFor_eq_ok hladder
  rw [routeReadable, DeadLetterRouter.ladder, hladder, ok_bind]
  simp only [nextTier_eq hladder, truncateError_eq, ok_bind]
  rw [horigin, hdead]
  unfold delay destination
  cases router.climbs exc attempts <;> rfl

/-- The envelope can be written if the text of the exception can, and on a first failure the place
    of the record, on a later one the count of attempts. The rest was read from headers. -/
theorem stampable_stamped {due : Aware} (hread : readHeaders message = .ok (previous, replays)) :
    Stampable (router.stamped message exc now due previous replays) ↔
      Encodable (kept (describe exc)) ∧
      (∀ envelope ∈ previous, Short (envelope.attempts + 1)) ∧
      (previous = none → Encodable (router.originOf none message) ∧
        Short message.partition.number ∧ Short message.offset) := by
  have herror : Encodable (kept (shown (describe exc))) ↔ Encodable (kept (describe exc)) := by
    rw [← encodable_shown, shown_shown, encodable_shown]
  obtain ⟨_, hread, h⟩ := bind_eq_ok.mp hread
  obtain ⟨_, hreplays, h⟩ := bind_eq_ok.mp h
  cases h
  cases previous with
  | none =>
    constructor
    · intro h
      exact ⟨herror.mp h.error, by simp, fun _ => ⟨h.originTopic, h.originPartition,
        h.originOffset⟩⟩
    · rintro ⟨htext, -, hplace⟩
      obtain ⟨htopic, hpartition, hoffset⟩ := hplace rfl
      exact ⟨htopic, hpartition, hoffset, short_of_le_one (Nat.le_refl 1), herror.mpr htext,
        readReplays_lt hreplays⟩
  | some envelope =>
    obtain ⟨htopic, hpartition, hoffset, hcount⟩ := fits_of_read hread
    constructor
    · intro h
      refine ⟨herror.mp h.error, ?_, nofun⟩
      rintro _ ⟨⟩
      exact h.attempts
    · rintro ⟨htext, hattempts, -⟩
      exact ⟨htopic, hpartition, hoffset, hattempts envelope rfl, herror.mpr htext, hcount⟩

theorem returns_routeReadable (hread : readHeaders message = .ok (previous, replays)) :
    Returns (router.routeReadable message exc now previous replays) ↔
      router.RoutableAs message exc now previous replays := by
  by_cases husable : router.policy.Usable (router.originOf previous message)
  · have hdelay := router.delay_nonneg exc ((previous.map (·.attempts)).getD 0 + 1)
    rw [routeReadable_eq husable]
    refine (returns_bind (p := Stampable (router.stamped message exc now now.aware previous
      replays)) fun envelope henvelope => ?_).trans ?_
    · refine returns_bind_pure.trans ?_
      obtain ⟨htime, hreplays⟩ := (returns_advance _ _ _ hdelay).mp ⟨envelope, henvelope⟩
      obtain ⟨due, hdue, -⟩ := dueAt_eq hdelay htime
      rw [advance_eq _ _ _ hdue hreplays] at henvelope
      cases henvelope
      -- whether the envelope can be written does not depend on when the record is due
      exact (returns_republish _ _ _).trans
        ((stampable_stamped hread).trans (stampable_stamped hread).symm)
    · rw [returns_advance _ _ _ hdelay, stampable_stamped hread]
      constructor
      · rintro ⟨⟨htime, hreplays⟩, herror, hattempts, hfirst⟩
        exact ⟨husable, htime, herror, hattempts, fun h => ⟨hreplays h, hfirst h⟩⟩
      · intro h
        exact ⟨⟨h.inTime, fun hnone => (h.first hnone).1⟩, h.error, h.attempts,
          fun hnone => (h.first hnone).2⟩
  · refine iff_of_false ?_ fun h => husable h.usable
    rintro ⟨routed, h⟩
    obtain ⟨ladder, hladder, -⟩ := bind_eq_ok.mp h
    exact husable ((RetryPolicy.returns_ladderFor _ _).mp ⟨ladder, hladder⟩)

theorem returns_deadLetterUnreadable {malformed : Exc} (hworded : Worded malformed) :
    Returns (router.deadLetterUnreadable message now malformed) ↔
      router.policy.Usable (router.originOf none message) ∧ Encodable message.topic ∧
        Short message.partition.number ∧ Short message.offset := by
  rw [← RetryPolicy.returns_ladderFor]
  refine returns_bind fun ladder _ => ?_
  have hnow : dueAt now 0 = .ok now.aware := rfl
  rw [advance_eq message (describe malformed) none hnow (fun _ => Int.le_refl 0), ok_bind]
  refine returns_bind_pure.trans ?_
  rw [returns_republish]
  constructor
  · intro h
    exact ⟨h.originTopic, h.originPartition, h.originOffset⟩
  · rintro ⟨htopic, hpartition, hoffset⟩
    exact ⟨htopic, hpartition, hoffset, short_of_le_one (Nat.le_refl 1),
      encodable_kept hworded.describe, short_of_le_one (Nat.zero_le 1)⟩

/-- The router gets as far as its publish exactly under these conditions. -/
theorem returns_route (router : DeadLetterRouter) (message : ConsumedMessage) (exc : Exc)
    (now : Utc) : Returns (router.route message exc now) ↔ router.Routable message exc now := by
  unfold route Routable
  cases hread : readHeaders message with
  | ok => exact returns_routeReadable hread
  | error raised =>
    have hmalformed := readHeaders_error_iff hread
    dsimp only
    split
    · next hraised =>
      rw [returns_deadLetterUnreadable (worded_readHeaders message raised hread)]
      constructor
      · rintro ⟨husable, htopic, hpartition, hoffset⟩
        exact ⟨husable, hmalformed.mp hraised, htopic, hpartition, hoffset⟩
      · intro h
        exact ⟨h.usable, h.topic, h.partition, h.offset⟩
    · next hraised =>
      exact iff_of_false (not_returns_error _) fun h => hraised (hmalformed.mpr h.noStray)

/-! ## Routing is total -/

/-- `route` with its publish: what was handed to the publisher, and how the call ended. -/
def routeVia (router : DeadLetterRouter) (publish : Outgoing → Except Exc (Partition × ℕ))
    (message : ConsumedMessage) (exc : Exc) (now : Utc) :
    List Outgoing × Except Exc (Routed × Partition × ℕ) :=
  match router.route message exc now with
  | .error raised => ([], .error raised)
  | .ok routed =>
    match publish routed.record with
    | .error raised => ([routed.record], .error raised)
    | .ok place => ([routed.record], .ok (routed, place))

end DeadLetterRouter

end

/-- One copy was published and the call returned, or the publisher raised what the call raised. -/
def PublishedOnce (publish : Outgoing → Except Exc (Partition × ℕ))
    (answer : List Outgoing × Except Exc (Routed × Partition × ℕ)) : Prop :=
  (∃ routed place, answer = ([routed.record], .ok (routed, place)) ∧
    publish routed.record = .ok place) ∨
  ∃ record raised, answer = ([record], .error raised) ∧ publish record = .error raised

section
variable [Unicode]

theorem not_publishedOnce {router : DeadLetterRouter} {message : ConsumedMessage} {exc raised : Exc}
    {now : Utc} (h : router.route message exc now = .error raised)
    (publish : Outgoing → Except Exc (Partition × ℕ)) :
    ¬ PublishedOnce publish (router.routeVia publish message exc now) := by
  rw [DeadLetterRouter.routeVia, h]
  rintro (⟨routed, place, h, -⟩ | ⟨record, error, h, -⟩)
  · cases h
  · cases h

/-- **When routing is total**: exactly when the record is routable. -/
theorem route_total_iff (router : DeadLetterRouter)
    (publish : Outgoing → Except Exc (Partition × ℕ)) (message : ConsumedMessage) (exc : Exc)
    (now : Utc) : PublishedOnce publish (router.routeVia publish message exc now) ↔
      router.Routable message exc now := by
  rw [← router.returns_route]
  cases hroute : router.route message exc now with
  | error raised => exact iff_of_false (not_publishedOnce hroute publish) (not_returns_error raised)
  | ok routed =>
    refine iff_of_true ?_ (returns_ok routed)
    rw [DeadLetterRouter.routeVia, hroute]
    dsimp only
    cases hpublish : publish routed.record with
    | error => exact .inr ⟨_, _, rfl, hpublish⟩
    | ok => exact .inl ⟨_, _, rfl, hpublish⟩

end

/-- Two records that stall their partition. One is the router's own work: a record whose envelope
    could not be read on a tier was dead-lettered as one of the tier, and the dead letter is on no
    ladder. The other failed with a lone surrogate in its text. -/
theorem route_raises_before_publish :
    letI : Unicode := .ascii
    let router : DeadLetterRouter := {}
    let unread : ConsumedMessage :=
      ⟨⟨lit "orders.retry.1", 0⟩, 4, none, some [], [(headerAttempts, asciiBytes (lit "x"))]⟩
    let plain : ConsumedMessage := ⟨⟨lit "orders", 0⟩, 4, none, some [], []⟩
    let exc (text : Text) := ExcClass.valueError.error text
    let now : Utc := ⟨63082281600000000, by decide⟩
    (∃ routed, router.route unread (exc (lit "boom")) now = .ok routed ∧
      routed.record.topic = lit "orders.dlt" ∧ ∀ publish, ¬ PublishedOnce publish
        (router.routeVia publish (routed.record.consumed 0 0) (exc (lit "boom")) now)) ∧
    ∀ publish, ¬ PublishedOnce publish (router.routeVia publish plain (exc [0xd800]) now) := by
  intro router unread plain exc now
  let : Unicode := .ascii
  constructor
  · have hroute : (router.route unread (exc (lit "boom")) now).toOption.any (fun routed =>
        routed.record.topic = lit "orders.dlt" ∧
          (router.route (routed.record.consumed 0 0) (exc (lit "boom")) now).toOption.isNone) =
        true := by
      decide +kernel
    cases hrouted : router.route unread (exc (lit "boom")) now with
    | error =>
      rw [hrouted] at hroute
      cases hroute
    | ok routed =>
      rw [hrouted] at hroute
      obtain ⟨htopic, hnone⟩ := of_decide_eq_true hroute
      refine ⟨routed, rfl, htopic, ?_⟩
      cases hagain : router.route (routed.record.consumed 0 0) (exc (lit "boom")) now with
      | error => exact not_publishedOnce hagain
      | ok =>
        rw [hagain] at hnone
        cases hnone
  · have hroute : (router.route plain (exc [0xd800]) now).toOption.isNone = true := by
      decide +kernel
    cases hrouted : router.route plain (exc [0xd800]) now with
    | error => exact not_publishedOnce hrouted
    | ok =>
      rw [hrouted] at hroute
      cases hroute

end Dlq
