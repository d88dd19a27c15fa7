import FastapiBoilerplate.Dlq.Routable
import FastapiBoilerplate.Dlq.Synthetic

/-!
# The walk down the ladder

A record that keeps failing goes from its origin through the tiers to the dead-letter topic, one
rung a failure. Nothing keeps count but the record: a hop reads the headers that the hop before
wrote, and writes them again. So the walk is an induction over hops, with what a copy carries
after `k` of them as its invariant.
-/

open Lib Kafka List

namespace Dlq

/-- What the envelope of a record says after `k` failures, the first of them at `first`. -/
structure Provenance (message : ConsumedMessage) (first : Utc) (k : ℕ)
    (envelope : DeadLetterEnvelope) : Prop where
  originTopic : envelope.originTopic = message.topic
  originPartition : envelope.originPartition = message.partition.number
  originOffset : envelope.originOffset = message.offset
  attempts : envelope.attempts = k
  firstFailedAt : envelope.firstFailedAt = first.aware

/-- Key, value and the application's headers are those of the record that was published. -/
structure Untouched (message : ConsumedMessage) (key : Option Text) (value : Option Bytes)
    (headers : Headers) : Prop where
  key : key = message.key
  value : value = message.value
  headers : strip headers = message.headers

section
variable [Unicode]

/-- A copy of `message` as the hop after its `k`-th failure consumes it. -/
structure Aboard (message : ConsumedMessage) (first : Utc) (k : ℕ) (copy : ConsumedMessage) :
    Prop where
  untouched : Untouched message copy.key copy.value copy.headers
  envelope : ∃ previous replays, DeadLetterRouter.readHeaders copy = .ok (previous, replays) ∧
    (previous = none → k = 0 ∧ copy = message ∧ replays = 0) ∧
    ∀ envelope ∈ previous, Provenance message first k envelope

/-- What is published at the `k`-th failure. -/
structure Arrives (router : DeadLetterRouter) (message : ConsumedMessage) (first : Utc) (k : ℕ)
    (failure : Failure) (record : Outgoing) : Prop where
  topic : record.topic =
    if router.climbs failure.exc k then router.policy.retryTopic message.topic k
    else router.policy.deadLetterTopic message.topic
  untouched : Untouched message record.key record.value record.headers
  envelope : ∃ envelope, (∀ number offset, read (record.consumed number offset) =
      .ok (some envelope)) ∧ Provenance message first k envelope ∧
    (router.climbs failure.exc k = true → ∃ delay, router.policy.tierDelay k = .ok delay ∧
      envelope.notBefore.micros = failure.now.val + roundHalfEven (delay * 1000000))

variable {k : ℕ} {failure : Failure} {copy message : ConsumedMessage}

theorem Arrives.aboard {router : DeadLetterRouter} {first : Utc} {record : Outgoing}
    (h : Arrives router message first k failure record) (number offset : ℕ) :
    Aboard message first k (record.consumed number offset) := by
  obtain ⟨envelope, hread, hprovenance, -⟩ := h.envelope
  refine ⟨h.untouched, some envelope, envelope.replays, ?_, nofun, ?_⟩
  · rw [DeadLetterRouter.readHeaders, hread, (readOff_of_read (hread number offset)).replays]
    rfl
  · rintro _ ⟨⟩
    exact hprovenance

theorem aboard_self (hplain : ∀ header ∈ message.headers, startsWith header.1 headerPrefix = false)
    (first : Utc) : Aboard message first 0 message := by
  have hstrip : strip message.headers = message.headers :=
    filter_eq_self.mpr fun header hheader => by simp [hplain header hheader]
  have hnone : ∀ name, startsWith name headerPrefix = true → message.header name = none := by
    intro name hname
    rw [ConsumedMessage.header, ← hstrip]
    exact lookup_strip hname _
  refine ⟨⟨rfl, rfl, hstrip⟩, none, 0, ?_, fun _ => ⟨rfl, rfl, rfl⟩, by simp⟩
  have hread : read message = .ok none := by rw [read, hnone headerAttempts (by decide)]
  have hreplays : readReplays message = .ok 0 := by
    rw [readReplays, hnone headerReplays (by decide)]
  rw [DeadLetterRouter.readHeaders, hread, hreplays]
  rfl

variable {router : DeadLetterRouter} {message : ConsumedMessage} {first : Utc}

/-- What the walk is about: a record with a key or a value, on a topic that a broker can have and
    that is no rung of a ladder. -/
structure Eligible (router : DeadLetterRouter) (message : ConsumedMessage) : Prop where
  kept : message.key.isSome ∨ message.value.isSome
  usable : router.policy.Usable message.topic
  topic : Encodable message.topic
  partition : Short message.partition.number
  offset : Short message.offset
  tiers : Short (router.policy.tiers + 1)

omit [Unicode] in
theorem Provenance.next {now : Utc} {due : Aware} {error : Text} {replays : ℕ}
    {previous : Option DeadLetterEnvelope} (hfirst : k = 0 → now = first)
    (hnone : previous = none → k = 0 ∧ copy = message)
    (hsome : ∀ envelope ∈ previous, Provenance message first k envelope) :
    Provenance message first (k + 1)
      (nextEnvelope copy message.topic now due error replays previous) := by
  cases previous with
  | none =>
    obtain ⟨rfl, rfl⟩ := hnone rfl
    exact ⟨rfl, rfl, rfl, rfl, by rw [← hfirst rfl]; rfl⟩
  | some envelope =>
    obtain ⟨htopic, hpartition, hoffset, hattempts, hfailed⟩ := hsome envelope rfl
    exact ⟨htopic, hpartition, hoffset, congrArg (· + 1) hattempts, hfailed⟩

/-- One hop: the copy left by `k` failures fails again. -/
theorem Aboard.hop (h : Aboard message first k copy) (heligible : Eligible router message)
    (hk : k ≤ router.policy.tiers) (hfirst : k = 0 → failure.now = first)
    (htext : Encodable (describe failure.exc))
    (htime : InTime failure.now (router.delay failure.exc (k + 1))) :
    ∃ routed, router.route copy failure.exc failure.now = .ok routed ∧
      routed.deadLettered = !router.climbs failure.exc (k + 1) ∧
      Arrives router message first (k + 1) failure routed.record := by
  obtain ⟨previous, replays, hread, hnone, hsome⟩ := h.envelope
  have horigin : router.originOf previous copy = message.topic := by
    cases previous with
    | none =>
      obtain ⟨-, rfl, -⟩ := hnone rfl
      simp [DeadLetterRouter.originOf, heligible.usable.notLadder]
    | some envelope => exact (hsome envelope rfl).originTopic
  have hattempts : (previous.map (·.attempts)).getD 0 = k := by
    cases previous with
    | none => exact (hnone rfl).1.symm
    | some envelope => exact (hsome envelope rfl).attempts
  have husable : router.policy.Usable (router.originOf previous copy) := horigin ▸ heligible.usable
  have hroutable : router.RoutableAs copy failure.exc failure.now previous replays := by
    refine ⟨husable, by rw [hattempts]; exact htime, encodable_kept htext, ?_, ?_⟩
    · intro envelope henvelope
      rw [(hsome envelope henvelope).attempts]
      exact Nat.lt_of_le_of_lt (Nat.succ_le_succ hk) heligible.tiers
    · rintro rfl
      obtain ⟨-, rfl, rfl⟩ := hnone rfl
      exact ⟨Int.le_refl 0, horigin ▸ heligible.topic, heligible.partition, heligible.offset⟩
  obtain ⟨routed, hrouted⟩ := (DeadLetterRouter.returns_routeReadable hread).mpr hroutable
  refine ⟨routed, by rw [DeadLetterRouter.route, hread]; exact hrouted, ?_⟩
  rw [DeadLetterRouter.routeReadable_eq husable, hattempts, horigin] at hrouted
  -- the envelope, and the record that is stamped with it
  have hdelay := router.delay_nonneg failure.exc (k + 1)
  obtain ⟨due, hdue, hval⟩ := dueAt_eq hdelay htime
  rw [advance_eq copy _ _ hdue fun hnone' => by rw [(hnone hnone').2.2], ok_bind] at hrouted
  obtain ⟨record, hrecord, hrouted⟩ := bind_eq_ok.mp hrouted
  cases hrouted
  have hkept : copy.key.isSome ∨ copy.value.isSome := by
    rw [h.untouched.key, h.untouched.value]
    exact heligible.kept
  have hprovenance : Provenance message first (k + 1) (nextEnvelope copy message.topic failure.now
      due.aware (shown (describe failure.exc)) replays.toNat previous) :=
    .next hfirst (fun hnone' => ⟨(hnone hnone').1, (hnone hnone').2.1⟩) hsome
  have hdue' : (nextEnvelope copy message.topic failure.now due.aware
      (shown (describe failure.exc)) replays.toNat previous).notBefore = due.aware := by
    cases previous <;> rfl
  have hreads := read_republish ⟨⟨first, hprovenance.firstFailedAt⟩, ⟨due, hdue'⟩⟩ hrecord
  obtain ⟨htopic, hvalue, hkey⟩ := republish_eq_ok hrecord
  obtain ⟨hsame, hstamped⟩ := republishKey_kept hkept hkey
  refine ⟨rfl, htopic, ⟨hsame.trans h.untouched.key, hvalue.trans h.untouched.value,
    hstamped.strip_eq.trans h.untouched.headers⟩, _, hreads, ⟨hprovenance.originTopic,
    hprovenance.originPartition, hprovenance.originOffset, hprovenance.attempts,
    hprovenance.firstFailedAt⟩, ?_⟩
  intro hclimbs
  have hle : k + 1 ≤ router.policy.tiers := by
    simp only [DeadLetterRouter.climbs, Bool.and_eq_true, decide_eq_true_eq] at hclimbs
    exact hclimbs.2
  refine ⟨_, RetryPolicy.tierDelay_eq (heligible.usable.bounded k hle), ?_⟩
  rw [DeadLetterRouter.delay, if_pos hclimbs] at hval
  have hmicros : due.aware.micros = due.val := by simp [Aware.micros, Utc.aware]
  exact ((congrArg Aware.micros hdue').trans hmicros).trans hval

/-- A failure and the further hops, as failures. -/
def failures (failure : Failure) (hops : List Hop) : List Failure :=
  failure :: hops.map (·.toFailure)

/-- The one that the walk ends with. -/
def lastFailure (failure : Failure) (hops : List Hop) : Failure :=
  (failures failure hops).getLast (cons_ne_nil _ _)

/-- The rest of the walk, from the copy left by `k` failures. -/
theorem Aboard.walk {hops : List Hop}
    (h : Aboard message first k copy) (heligible : Eligible router message)
    (hlength : k + hops.length ≤ router.policy.tiers) (hfirst : k = 0 → failure.now = first)
    (hretry : ∀ f ∈ (failures failure hops).dropLast,
      router.nonRetryable.any f.exc.isInstance = false)
    (htexts : ∀ f ∈ failures failure hops, Encodable (describe f.exc))
    (htimes : ∀ i f, (failures failure hops)[i]? = some f →
      InTime f.now (router.delay f.exc (k + i + 1))) :
    ∃ routed, router.walk copy failure hops = some routed ∧
      Arrives router message first (k + hops.length + 1) (lastFailure failure hops)
        routed.record := by
  induction hops generalizing k copy failure with
  | nil =>
    obtain ⟨routed, hroute, -, harrives⟩ := h.hop heligible hlength hfirst
      (htexts failure mem_cons_self) (htimes 0 failure rfl)
    refine ⟨routed, ?_, harrives⟩
    rw [DeadLetterRouter.walk, hroute]
    rfl
  | cons hop hops ih =>
    rw [length_cons] at hlength
    obtain ⟨routed, hroute, hdead, harrives⟩ := h.hop heligible (by omega) hfirst
      (htexts failure mem_cons_self) (htimes 0 failure rfl)
    -- all but the last failure are retryable, so this one leads to a tier
    have hretryable : router.nonRetryable.any failure.exc.isInstance = false :=
      hretry failure mem_cons_self
    have halive : routed.deadLettered = false := by
      have hle : k + 1 ≤ router.policy.tiers := by omega
      simp [hdead, DeadLetterRouter.climbs, hretryable, hle]
    obtain ⟨routed', hwalk, harrives'⟩ := ih (harrives.aboard hop.number hop.offset) (by omega)
      (fun h => by omega) (fun f hf => hretry f (mem_cons_of_mem _ hf))
      (fun f hf => htexts f (mem_cons_of_mem _ hf))
      (fun i f hf => by
        have := htimes (i + 1) f hf
        rwa [show k + (i + 1) + 1 = k + 1 + i + 1 by omega] at this)
    refine ⟨routed', ?_, ?_⟩
    · rw [DeadLetterRouter.walk, hroute]
      simp only [halive, Bool.false_eq_true, if_false]
      exact hwalk
    · rw [length_cons, show k + (hops.length + 1) + 1 = k + 1 + hops.length + 1 by omega]
      exact harrives'

/-- **The walk down the ladder.** However often it has failed, up to once on every rung, and
    whatever it failed with the last time: the copy is on the rung of that failure, or on the
    dead-letter topic if that failure was permanent or there is no such rung; it is the record
    that was published, and its envelope says where, when it failed first and how often. -/
theorem ladder_walk (router : DeadLetterRouter) (message : ConsumedMessage)
    (hplain : ∀ header ∈ message.headers, startsWith header.1 headerPrefix = false)
    (heligible : Eligible router message) (first : Failure) (hops : List Hop)
    (hlength : hops.length ≤ router.policy.tiers)
    (hretry : ∀ failure ∈ (failures first hops).dropLast,
      router.nonRetryable.any failure.exc.isInstance = false)
    (htexts : ∀ failure ∈ failures first hops, Encodable (describe failure.exc))
    (htimes : ∀ i failure, (failures first hops)[i]? = some failure →
      InTime failure.now (router.delay failure.exc (i + 1))) :
    ∃ routed, router.walk message first hops = some routed ∧
      Arrives router message first.now (hops.length + 1) (lastFailure first hops)
        routed.record := by
  have h := (aboard_self hplain first.now).walk heligible (by omega) (fun _ => rfl) hretry htexts
    (fun i failure hfailure => by simpa using htimes i failure hfailure)
  simpa using h

end

/-- Two failures on a ladder of one rung. -/
theorem ladder_walk_exhausted :
    letI : Unicode := .ascii
    let message : ConsumedMessage :=
      ⟨⟨lit "orders", 0⟩, 7, some (lit "k"), none, [(lit "trace", asciiBytes (lit "t"))]⟩
    ∃ routed, oneTier.walk message transient [{ transient with number := 1, offset := 3 }] =
        some routed ∧
      Arrives oneTier message newYear 2 transient routed.record := by
  intro message
  let : Unicode := .ascii
  have hplain : message.headers.all (fun header => !startsWith header.1 headerPrefix) = true := by
    decide
  have hshort : Short 0 ∧ Short 7 ∧ Short 2 := by
    unfold Short
    decide +kernel
  have heligible : Eligible oneTier message :=
    ⟨.inl rfl, ⟨by decide, by decide +kernel, by decide +kernel⟩, by decide, hshort.1, hshort.2.1,
      hshort.2.2⟩
  have hmem (failure : Failure)
      (h : failure ∈ failures transient [{ transient with number := 1, offset := 3 }]) :
      failure = transient := by
    simpa [failures] using h
  have htimes : ∀ i < 2, InTime newYear (oneTier.delay transient.exc (i + 1)) := by
    decide +kernel
  refine ladder_walk oneTier message ?_ heligible transient
    [{ transient with number := 1, offset := 3 }] (by decide) ?_ ?_ ?_
  · intro header hheader
    simpa using all_eq_true.mp hplain header hheader
  · intro failure hfailure
    rw [hmem failure (dropLast_subset _ hfailure)]
    rfl
  · intro failure hfailure
    rw [hmem failure hfailure]
    decide
  · intro i failure hfailure
    rw [hmem failure (mem_of_getElem? hfailure)]
    exact htimes i (List.getElem?_eq_some_iff.mp hfailure).1

end Dlq
