import FastapiBoilerplate.Dlq.Handler

/-!
# No record ever exists nowhere

A handler that dead-letters returns only after `h` returned or the router's publish landed, and
the runner commits past a record only after its handler returned. Put together over two consumer
groups, any number of topics and any interruptions: a record below a committed offset has been
dealt with by `h`, or there is a copy of it further down its ladder, and the same holds of the
copies. A copy is published after the record it is a copy of, so following the copies comes to an
end: at one that `h` returned for, one that the tier consumers have not committed past, or one on
the dead-letter topic.
-/

open Lib Kafka List Option

namespace Dlq

/-! ## What a copy is -/

/-- The same record but for the package's own headers; the key may be new where there was
    neither a key nor a value. -/
structure SameRecord (original copy : Record) : Prop where
  value : copy.value = original.value
  headers : strip copy.headers = strip original.headers
  key : original.key.isSome ∨ original.value.isSome → copy.key = original.key

theorem SameRecord.trans {a b c : Record} (hab : SameRecord a b) (hbc : SameRecord b c) :
    SameRecord a c := by
  refine ⟨hbc.value.trans hab.value, hbc.headers.trans hab.headers, ?_⟩
  intro hsome
  have hkey := hab.key hsome
  rw [← hkey, ← hab.value] at hsome
  exact (hbc.key hsome).trans hkey

variable {envelope : DeadLetterEnvelope} {ladder : RetryLadder}

theorem republishKey_stamped {message : ConsumedMessage} {key : Option Text} {headers : Headers}
    (h : republishKey message envelope = .ok (key, headers)) :
    ∃ out more, stamp message.headers envelope = .ok out ∧ headers = out ++ more := by
  obtain ⟨out, hout, h⟩ := bind_eq_ok.mp h
  split at h
  · cases h
    exact ⟨_, [], hout, (append_nil _).symm⟩
  · obtain ⟨partition, -, h⟩ := bind_eq_ok.mp h
    obtain ⟨offset, -, h⟩ := bind_eq_ok.mp h
    cases h
    exact ⟨out, _, hout, rfl⟩

theorem sameRecord_of_republish {record : Record} {partition : Partition} {offset : ℕ}
    {topic : Text} {out : Outgoing}
    (h : republish (record.consumed partition offset) topic envelope = .ok out) :
    SameRecord record out.toRecord := by
  obtain ⟨-, hvalue, hkey⟩ := republish_eq_ok h
  by_cases hkept : (record.consumed partition offset).key.isSome ∨
      (record.consumed partition offset).value.isSome
  · obtain ⟨hsame, hstamped⟩ := republishKey_kept hkept hkey
    exact ⟨hvalue, hstamped.strip_eq, fun _ => hsame⟩
  have hneither : (record.consumed partition offset).key = none ∧
      (record.consumed partition offset).value = none := by
    simpa [not_or] using hkept
  obtain ⟨-, stamped, hstamped, hheaders⟩ := republishKey_synthetic hneither hkey
  refine ⟨hvalue, ?_, fun h => absurd h hkept⟩
  show strip out.headers = strip record.headers
  rw [hheaders, strip_append, hstamped.strip_eq]
  have hflag : strip [(headerSyntheticKey, asciiBytes (lit "1"))] = [] := by decide
  rw [hflag, append_nil]
  rfl

section
variable [Unicode]

/-- What a router published on a tier is on the ladder of the record it was published for. -/
theorem ladderFor_of_tier {router : DeadLetterRouter} {message copy : ConsumedMessage} {exc : Exc}
    {routed : Routed} (hroute : router.Route message exc routed)
    (hladder : router.ladderFor message = .ok ladder)
    (horigin : routed.envelope.originTopic = ladder.originTopic)
    (hheaders : copy.headers = routed.record.headers) : router.ladderFor copy = .ok ladder := by
  obtain ⟨-, -, hkey⟩ := republish_eq_ok hroute.republished
  obtain ⟨out, more, hstamp, hout⟩ := republishKey_stamped hkey
  obtain ⟨error, -, hread⟩ := read_stamp hroute.inUtc hstamp (hheaders.trans hout)
  have hbuilt : ∃ origin, router.policy.ladderFor origin = .ok ladder := by
    unfold DeadLetterRouter.ladderFor at hladder
    split at hladder
    · exact ⟨_, hladder⟩
    split at hladder
    · exact ⟨_, hladder⟩
    · cases hladder
  obtain ⟨origin, hbuilt⟩ := hbuilt
  have hsame := (RetryPolicy.ladderFor_eq_ok hbuilt).1
  rw [DeadLetterRouter.ladderFor, hread]
  show router.policy.ladderFor routed.envelope.originTopic = .ok ladder
  rw [horigin, hsame]
  exact hbuilt

variable (setup : Setup)

/-- The record at a place. -/
def Place.record (place : Place) (broker : Broker) : Option Record :=
  broker.recordAt place.partition place.offset

/-- The record at a place as it is consumed from there. -/
def Place.message (place : Place) (record : Record) : ConsumedMessage :=
  record.consumed place.partition place.offset

/-- What is known of a copy: it is in the broker as the router published it, for a record that is
    there too. -/
def Copy.Made (broker : Broker) (copy : Copy) : Prop :=
  ∃ record exc now routed, copy.parent.record broker = some record ∧
    setup.router.route (copy.parent.message record) exc now = .ok routed ∧
    copy.child.record broker = some routed.record.toRecord ∧
    copy.child.partition.topic = routed.record.topic

variable {setup} {broker broker' : Broker} {copy : Copy}

theorem Copy.Made.mono (h : copy.Made setup broker) (hextends : broker.Extends broker') :
    copy.Made setup broker' := by
  obtain ⟨record, exc, now, routed, hrecord, hroute, hcopy, htopic⟩ := h
  exact ⟨record, exc, now, routed, hextends _ _ _ hrecord, hroute, hextends _ _ _ hcopy, htopic⟩

theorem Copy.Made.sameRecord (h : copy.Made setup broker) {record : Record}
    (hrecord : copy.parent.record broker = some record) :
    ∃ child, copy.child.record broker = some child ∧ SameRecord record child := by
  obtain ⟨found, exc, now, routed, hfound, hroute, hcopy, -⟩ := h
  obtain rfl : found = record := some.inj (hfound.symm.trans hrecord)
  exact ⟨_, hcopy, sameRecord_of_republish (DeadLetterRouter.route_eq_ok hroute).republished⟩

/-- A copy is on its record's ladder: dead-lettered, or on a tier, and then still on that
    ladder. -/
theorem Copy.Made.onLadder (h : copy.Made setup broker) : ∃ record ladder,
    copy.parent.record broker = some record ∧
    setup.router.ladderFor (copy.parent.message record) = .ok ladder ∧
    (copy.child.partition.topic = ladder.deadLetterTopic ∨
      copy.child.partition.topic ∈ ladder.retryTopics ∧ ∃ child,
        copy.child.record broker = some child ∧
        setup.router.ladderFor (copy.child.message child) = .ok ladder) := by
  obtain ⟨record, exc, now, routed, hrecord, hroute, hcopy, htopic⟩ := h
  have hroute := DeadLetterRouter.route_eq_ok hroute
  obtain ⟨ladder, hladder, hdestination⟩ := hroute.topic
  refine ⟨record, ladder, hrecord, hladder, ?_⟩
  rw [htopic]
  split at hdestination
  · exact .inl hdestination
  · obtain ⟨hmem, horigin⟩ := hdestination
    exact .inr ⟨hmem, _, hcopy, ladderFor_of_tier hroute hladder horigin rfl⟩

end

/-! ## The invariant -/

/-- `h` returned for the record, or there is a copy of it. -/
def Sys.Settled (s : Sys) (place : Place) : Prop :=
  place ∈ s.returned ∨ ∃ copy ∈ s.copies, copy.parent = place

section
variable [Unicode] (setup : Setup)

/-- What holds of the system at any time: whatever was handled is settled, and so is the record
    whose handler is about to return; copies are what they should be, and each was published
    after the record it is a copy of. -/
structure Kept (s : Sys) : Prop where
  kafka : Kafka.Kept s.kafka
  handled : ∀ delivery ∈ s.kafka.handled, s.Settled ⟨delivery.partition, delivery.offset⟩
  ended : ∀ (r : ℕ) (worker : Worker) (message : ConsumedMessage), s.workers[r]? = some worker →
    worker.stage = .ended .returned → s.kafka.atHand r = some message → s.Settled (.of message)
  made : ∀ copy ∈ s.copies, copy.Made setup s.kafka.broker
  ordered : ∀ (i j : ℕ) (a b : Copy), s.copies[i]? = some a → s.copies[j]? = some b →
    b.parent = a.child → i < j

variable {setup} {s s' : Sys} {r : ℕ} {worker : Worker} {stage : Stage}

omit [Unicode] in
theorem Sys.Settled.mono {place : Place} (h : s.Settled place)
    (hreturned : s.returned ⊆ s'.returned) (hcopies : s.copies ⊆ s'.copies) : s'.Settled place := by
  rcases h with h | ⟨copy, hmem, hparent⟩
  · exact .inl (hreturned h)
  · exact .inr ⟨copy, hcopies hmem, hparent⟩

omit [Unicode] in
theorem getElem?_setStage {q : ℕ} (h : (s.setStage r stage).workers[q]? = some worker) :
    (q = r ∧ worker.stage = stage) ∨ (q ≠ r ∧ s.workers[q]? = some worker) := by
  simp only [Sys.setStage, getElem?_modify] at h
  obtain ⟨old, hold, hworker⟩ := map_eq_some_iff.mp h
  by_cases hq : r = q
  · simp only [hq, if_true] at hworker
    exact .inl ⟨hq.symm, hworker ▸ rfl⟩
  · simp only [hq, if_false] at hworker
    exact .inr ⟨fun e => hq e.symm, hworker ▸ hold⟩

variable {a : Kafka.Action} {kafka : Kafka.Sys} {message : ConsumedMessage} {record : Record}

section

variable (h : Kept setup s)

include h

/-- A step of the consumers. Whoever is about to return to its runner was so before, and has not
    come by another record. -/
theorem Kept.step_kafka
    (hstep : Kafka.step s.kafka a = some kafka) {workers : List Worker}
    (hworkers : ∀ (r : ℕ) (worker : Worker), workers[r]? = some worker →
      worker.stage = .ended .returned → s.workers[r]? = some worker ∧ ¬ a.begins r)
    (hreturned : ∀ r draw message, a = .handle r .returned draw →
      s.kafka.atHand r = some message → s.Settled (.of message)) :
    Kept setup { s with kafka, workers } := by
  have hframed := Kafka.step_framed hstep
  constructor
  case kafka => exact Kafka.step_kept h.kafka hstep
  case handled =>
    intro delivery hmem
    rcases hframed.handled delivery hmem with hmem | ⟨r, draw, message, runner, ha, hhand, -, rfl⟩
    · exact h.handled delivery hmem
    · exact hreturned r draw message ha hhand
  case ended =>
    intro r worker message hworker hstage hhand
    obtain ⟨hworker, hbegins⟩ := hworkers r worker hworker hstage
    rcases hframed.atHand r message hhand with hhand | hbegun
    · exact h.ended r worker message hworker hstage hhand
    · exact absurd hbegun hbegins
  case made => exact fun copy hmem => (h.made copy hmem).mono hframed.logs
  case ordered => exact h.ordered

theorem Kept.setStage
    (hstage : stage = .ended .returned → ∀ message, s.kafka.atHand r = some message →
      s.Settled (.of message)) : Kept setup (s.setStage r stage) := by
  refine ⟨h.kafka, h.handled, ?_, h.made, h.ordered⟩
  intro q worker message hworker hended hhand
  rcases getElem?_setStage hworker with ⟨rfl, rfl⟩ | ⟨-, hworker⟩
  · exact hstage hended message hhand
  · exact h.ended q worker message hworker hended hhand

theorem Kept.addReturned (place : Place) :
    Kept setup { s with returned := s.returned ++ [place] } := by
  have hmono : ∀ p, s.Settled p → Sys.Settled { s with returned := s.returned ++ [place] } p :=
    fun p hp => hp.mono (subset_append_left _ _) (List.Subset.refl _)
  exact ⟨h.kafka, fun d hd => hmono _ (h.handled d hd),
    fun r w m hw hs hm => hmono _ (h.ended r w m hw hs hm), h.made, h.ordered⟩

theorem Kept.setBroker {broker : Broker} (hgroups : broker.groups = s.kafka.broker.groups)
    (hextends : s.kafka.broker.Extends broker) :
    Kept setup { s with kafka := { s.kafka with broker } } :=
  ⟨h.kafka.setBroker hgroups hextends, h.handled, h.ended,
    fun copy hmem => (h.made copy hmem).mono hextends, h.ordered⟩

theorem Kept.addCopy {copy : Copy} (hmade : copy.Made setup s.kafka.broker)
    (hself : copy.parent ≠ copy.child) (hfresh : ∀ other ∈ s.copies, other.parent ≠ copy.child) :
    Kept setup { s with copies := s.copies ++ [copy] } := by
  have hmono : ∀ p, s.Settled p → Sys.Settled { s with copies := s.copies ++ [copy] } p :=
    fun p hp => hp.mono (List.Subset.refl _) (subset_append_left _ _)
  refine ⟨h.kafka, fun d hd => hmono _ (h.handled d hd),
    fun r w m hw hs hm => hmono _ (h.ended r w m hw hs hm), ?_, ?_⟩
  · exact forall_mem_snoc h.made hmade
  intro i j a b ha hb hparent
  rcases getElem?_append_cases ha with ⟨rfl, rfl⟩ | ⟨hi, ha⟩
  · rcases getElem?_append_cases hb with ⟨rfl, rfl⟩ | ⟨-, hb⟩
    · exact absurd hparent hself
    · exact absurd hparent (hfresh b (mem_of_getElem? hb))
  · rcases getElem?_append_cases hb with ⟨rfl, rfl⟩ | ⟨-, hb⟩
    · exact hi
    · exact h.ordered i j a b ha hb hparent

/-! ## Steps -/

theorem Kept.conclude {outcome : Outcome} {draw : ℚ}
    (hsettled : outcome = .returned → ∀ message, s.kafka.atHand r = some message →
      s.Settled (.of message))
    (hstep : Dlq.conclude s r outcome draw = some s') : Kept setup s' := by
  obtain ⟨kafka, hkafka, rfl⟩ := map_eq_some_iff.mp hstep
  refine h.step_kafka hkafka ?_ ?_
  · intro q worker hworker hstage
    rcases getElem?_setStage hworker with ⟨-, hentered⟩ | ⟨hq, hworker⟩
    · rw [hentered] at hstage
      cases hstage
    · exact ⟨hworker, fun hbegins => hq hbegins.symm⟩
  · intro q d message ha hhand
    cases ha
    exact hsettled rfl message hhand

end

omit [Unicode] in
theorem call_eq_some (h : s.call r = some (worker, message)) :
    s.workers[r]? = some worker ∧ s.kafka.atHand r = some message := by
  obtain ⟨found, hfound, h⟩ := bind_eq_some_iff.mp h
  obtain ⟨hand, hhand, h⟩ := map_eq_some_iff.mp h
  cases h
  exact ⟨hfound, hhand⟩

/-- The record at hand is the one at its place. -/
theorem Kept.atHand (h : Kept setup s) (hhand : s.kafka.atHand r = some message) :
    ∃ record, (Place.of message).record s.kafka.broker = some record ∧
      message = (Place.of message).message record := by
  obtain ⟨runner, batch, behind, hrunner, hphase⟩ := Kafka.atHand_eq_some hhand
  exact (h.kafka.fits runner (mem_of_getElem? hrunner)).recordAt hphase

/-- What a call of the router does to the broker. If it answers, the copy is there, and was not
    before. -/
theorem Setup.route_spec (setup : Setup) (kafka : Kafka.Sys) (message : ConsumedMessage) (exc : Exc)
    (now : Utc) : (setup.route kafka message exc now).1.groups = kafka.broker.groups ∧
      kafka.broker.Extends (setup.route kafka message exc now).1 ∧
      ∀ partition offset, (setup.route kafka message exc now).2 = .ok (partition, offset) →
        ∃ routed, setup.router.route message exc now = .ok routed ∧
          partition.topic = routed.record.topic ∧
          kafka.broker.recordAt partition offset = none ∧
          (setup.route kafka message exc now).1.recordAt partition offset =
            some routed.record.toRecord := by
  unfold Setup.route
  split
  · exact ⟨rfl, .refl _, nofun⟩
  rename_i routed hrouted
  split
  · refine ⟨(Broker.grown_publish _ _).groups, (Broker.grown_publish _ _).logs, ?_⟩
    intro partition offset h
    exact ⟨routed, hrouted, Broker.recordAt_of_publish h⟩
  · exact ⟨rfl, .refl _, nofun⟩

theorem Kept.route (h : Kept setup s) {now : Utc} (hstep : step setup s (.route r now) = some s') :
    Kept setup s' := by
  obtain ⟨⟨worker, message⟩, hcall, hstep⟩ := bind_eq_some_iff.mp hstep
  obtain ⟨-, hhand⟩ := call_eq_some hcall
  obtain ⟨record, hrecord, hmessage⟩ := h.atHand hhand
  dsimp only at hstep
  split at hstep
  · rename_i exc hstage
    obtain ⟨hgroups, hextends, hlanded⟩ := setup.route_spec s.kafka message exc now
    generalize setup.route s.kafka message exc now = answer at hstep hgroups hextends hlanded
    obtain ⟨broker, published⟩ := answer
    have hbroker := h.setBroker hgroups hextends
    dsimp only at hstep hlanded
    split at hstep
    · cases hstep
      exact hbroker.setStage (nofun)
    rename_i partition offset
    cases hstep
    obtain ⟨routed, hrouted, htopic, hnone, hcopy⟩ := hlanded partition offset rfl
    -- whatever is the record of a copy was there before this one
    have hthere : ∀ (place : Place) (found : Record),
        place.record s.kafka.broker = some found → place ≠ ⟨partition, offset⟩ := by
      intro place found hfound hplace
      rw [hplace, Place.record, hnone] at hfound
      cases hfound
    have hmade : Copy.Made setup broker ⟨.of message, ⟨partition, offset⟩⟩ :=
      ⟨record, exc, now, routed, hextends _ _ _ hrecord, hmessage ▸ hrouted, hcopy, htopic⟩
    refine (hbroker.addCopy hmade (hthere _ _ hrecord) ?_).setStage ?_
    · intro other hmem
      obtain ⟨parent, -, -, -, hparent, -⟩ := h.made other hmem
      exact hthere _ _ hparent
    · intro _ message' hhand'
      obtain rfl : message = message' := some.inj (hhand.symm.trans hhand')
      exact .inr ⟨_, mem_append_right _ mem_cons_self, rfl⟩
  · cases hstep

theorem enter_ne_returned (gate : Option ℚ) (message : ConsumedMessage) (now : Utc) :
    enter gate message now ≠ .ended .returned := by
  unfold enter
  split
  · exact nofun
  split
  · exact nofun
  · exact nofun
  · dsimp only
    split <;> exact nofun

theorem Kept.handle (h : Kept setup s) {result : Result}
    (hstep : step setup s (.handle r result) = some s') : Kept setup s' := by
  obtain ⟨⟨worker, message⟩, hcall, hstep⟩ := bind_eq_some_iff.mp hstep
  obtain ⟨-, hhand⟩ := call_eq_some hcall
  dsimp only at hstep
  split at hstep <;> cases hstep
  · refine (h.addReturned _).setStage ?_
    intro _ message' hhand'
    obtain rfl : message = message' := some.inj (hhand.symm.trans hhand')
    exact .inl (mem_append_right _ mem_cons_self)
  · exact h.setStage (nofun)
  · exact h.setStage (nofun)

theorem Kept.afterKafka (h : Kept setup s) (hhandle : ∀ r outcome draw, a ≠ .handle r outcome draw)
    (hstep : Kafka.step s.kafka a = some kafka) :
    Kept setup (Dlq.afterKafka a { s with kafka }) := by
  have hcleared : ∀ r, (∀ q, a.begins q → q = r) →
      Kept setup (Sys.setStage { s with kafka } r .entered) := by
    intro r hbegins
    refine h.step_kafka hstep ?_ (fun q draw _ ha => absurd ha (hhandle q _ draw))
    intro q worker hworker hstage
    rcases getElem?_setStage hworker with ⟨-, hentered⟩ | ⟨hq, hworker⟩
    · rw [hentered] at hstage
      cases hstage
    · exact ⟨hworker, fun hb => hq (hbegins q hb)⟩
  have hkept : (∀ q, ¬ a.begins q) → Kept setup { s with kafka } := fun hbegins =>
    h.step_kafka hstep (fun q worker hworker _ => ⟨hworker, hbegins q⟩)
      (fun q draw _ ha => absurd ha (hhandle q _ draw))
  cases a with
  | poll r | seek r => exact hcleared r fun q hq => hq.symm
  | cancel r => exact hcleared r fun q hq => hq.elim
  | handle r outcome draw => exact absurd rfl (hhandle r outcome draw)
  | createTopic | newPublisher | startPublisher | stopPublisher | publish | newRunner | start
  | stop | commit => exact hkept fun q hq => hq

theorem step_kept {a : Action} (h : Kept setup s) (hstep : step setup s a = some s') :
    Kept setup s' := by
  cases a with
  | kafka =>
    simp only [step] at hstep
    split at hstep
    · cases hstep
    · cases hstep
    rename_i hrunner hhandle
    obtain ⟨kafka, hkafka, rfl⟩ := map_eq_some_iff.mp hstep
    exact h.afterKafka hhandle hkafka
  | newConsumer =>
    obtain ⟨kafka, hkafka, rfl⟩ := map_eq_some_iff.mp hstep
    refine h.step_kafka hkafka ?_ (nofun)
    intro q worker hworker hstage
    rcases getElem?_append_cases hworker with ⟨-, rfl⟩ | ⟨-, hworker⟩
    · cases hstage
    · exact ⟨hworker, fun hbegins => hbegins⟩
  | enter =>
    obtain ⟨⟨worker, message⟩, -, hstep⟩ := bind_eq_some_iff.mp hstep
    dsimp only at hstep
    split at hstep <;> cases hstep
    exact h.setStage fun hended => absurd hended (enter_ne_returned _ _ _)
  | handle => exact h.handle hstep
  | route => exact h.route hstep
  | finish r =>
    obtain ⟨worker, hworker, hstep⟩ := bind_eq_some_iff.mp hstep
    split at hstep <;> [skip; cases hstep]
    rename_i outcome hstage
    refine h.conclude ?_ hstep
    intro hreturned message hhand
    exact h.ended r worker message hworker (hstage.trans (by rw [hreturned])) hhand
  | timeout => exact h.conclude (fun hreturned => by cases hreturned) hstep

theorem kept_fresh (defaultPartitions : ℕ) : Kept setup (Sys.fresh defaultPartitions) := by
  constructor
  case kafka => exact Kafka.kept_fresh defaultPartitions
  case handled =>
    exact nofun
  case ended =>
    exact nofun
  case made =>
    exact nofun
  case ordered =>
    exact nofun

/-! ## Following the copies -/

/-- `copy` is a copy of the record at `place`, or a copy of one. -/
def Sys.Copied (s : Sys) : Place → Place → Prop :=
  Relation.TransGen fun parent child => ⟨parent, child⟩ ∈ s.copies

/-- Each copy is there, and the same record. -/
theorem Kept.sameRecord (h : Kept setup s) {place copy : Place} (hcopied : s.Copied place copy)
    (hrecord : place.record s.kafka.broker = some record) :
    ∃ found, copy.record s.kafka.broker = some found ∧ SameRecord record found := by
  induction hcopied with
  | single hmem => exact (h.made _ hmem).sameRecord hrecord
  | tail _ hmem ih =>
    obtain ⟨middle, hmiddle, hsame⟩ := ih
    obtain ⟨found, hfound, hsame'⟩ := (h.made _ hmem).sameRecord hmiddle
    exact ⟨found, hfound, hsame.trans hsame'⟩

/-- Where following the copies of a record may end, given the group that consumes the tiers. -/
def Sys.Rests (s : Sys) (tiers : Text) (ladder : RetryLadder) (copy : Place) : Prop :=
  copy ∈ s.returned ∨
    (copy.partition.topic ∈ ladder.retryTopics ∧
      (s.kafka.broker.committed tiers copy.partition).getD 0 ≤ copy.offset) ∨
    copy.partition.topic = ladder.deadLetterTopic

/-- From any copy on, by induction on how many were published after it. -/
theorem Kept.rests (h : Kept setup s) (tiers : Text) :
    ∀ (d i : ℕ) (copy : Copy), s.copies[i]? = some copy → s.copies.length - i ≤ d →
      copy.parent.record s.kafka.broker = some record →
      setup.router.ladderFor (copy.parent.message record) = .ok ladder →
      ∃ last, s.Copied copy.parent last ∧ s.Rests tiers ladder last := by
  intro d
  induction d generalizing record with
  | zero =>
    intro i copy hcopy hd
    have := lt_of_getElem? hcopy
    omega
  | succ d ih =>
    intro i copy hcopy hd hrecord hladder
    have hmem := mem_of_getElem? hcopy
    have hedge : s.Copied copy.parent copy.child := .single hmem
    obtain ⟨found, ladder', hfound, hladder', hplaced⟩ := (h.made copy hmem).onLadder
    obtain rfl : found = record := some.inj (hfound.symm.trans hrecord)
    obtain rfl : ladder' = ladder := Except.ok.inj (hladder'.symm.trans hladder)
    -- a dead letter rests; a copy on a tier does until the tier's consumers are past it
    rcases hplaced with hdead | ⟨htier, child, hchild, hsame⟩
    · exact ⟨copy.child, hedge, .inr (.inr hdead)⟩
    cases hcommitted : s.kafka.broker.committed tiers copy.child.partition with
    | none =>
      refine ⟨copy.child, hedge, .inr (.inl ⟨htier, ?_⟩)⟩
      rw [hcommitted]
      exact Nat.zero_le _
    | some n =>
      rcases Nat.lt_or_ge copy.child.offset n with hlt | hge
      · -- the tier consumers are past it: they have dealt with it
        have hhandled := h.kafka.committed tiers _ n hcommitted _ hlt
        rcases h.handled _ hhandled with hreturned | ⟨next, hnext, hparent⟩
        · exact ⟨copy.child, hedge, .inl hreturned⟩
        obtain ⟨j, hj⟩ := mem_iff_getElem?.mp hnext
        have hij := h.ordered i j copy next hcopy hj hparent
        have hjlt := lt_of_getElem? hj
        have hparent : next.parent = copy.child := hparent
        obtain ⟨last, hcopied, hrests⟩ :=
          ih j next hj (by omega) (hparent ▸ hchild) (hparent ▸ hsame)
        rw [hparent] at hcopied
        exact ⟨last, hedge.trans hcopied, hrests⟩
      · refine ⟨copy.child, hedge, .inr (.inl ⟨htier, ?_⟩)⟩
        rw [hcommitted]
        exact hge

/-- Below the offset a group has committed, every record is there, and `h` returned for it or one
    of its copies, or a copy is on a tier the group `tiers` has not committed past, or on the
    dead-letter topic. Each copy is the same record. -/
theorem never_nowhere {defaultPartitions : ℕ}
    (hrun : Run (step setup) Always (Sys.fresh defaultPartitions) s)
    (group tiers : Text) (partition : Partition) (n k : ℕ)
    (hcommitted : s.kafka.broker.committed group partition = some n) (hk : k < n) :
    (⟨partition, k⟩ ∈ s.returned ∨ ∃ record ladder copy,
      s.kafka.broker.recordAt partition k = some record ∧
      setup.router.ladderFor (record.consumed partition k) = .ok ladder ∧
      s.Copied ⟨partition, k⟩ copy ∧ s.Rests tiers ladder copy) ∧
    ∀ copy, s.Copied ⟨partition, k⟩ copy → ∃ original found,
      s.kafka.broker.recordAt partition k = some original ∧
      copy.record s.kafka.broker = some found ∧ SameRecord original found := by
  have h : Kept setup s := hrun.invariant (fun h _ => step_kept h) (kept_fresh defaultPartitions)
  constructor
  · have hhandled := h.kafka.committed group partition n hcommitted k hk
    rcases h.handled _ hhandled with hreturned | ⟨copy, hmem, hparent⟩
    · exact .inl hreturned
    obtain ⟨i, hi⟩ := mem_iff_getElem?.mp hmem
    obtain ⟨record, ladder, hrecord, hladder, -⟩ := (h.made copy hmem).onLadder
    have hparent : copy.parent = ⟨partition, k⟩ := hparent
    obtain ⟨last, hcopied, hrests⟩ := h.rests tiers _ i copy hi le_rfl hrecord hladder
    rw [hparent] at hrecord hladder hcopied
    exact .inr ⟨record, ladder, last, hrecord, hladder, hcopied, hrests⟩
  · intro copy hcopied
    have hfirst : ∃ child, ⟨⟨partition, k⟩, child⟩ ∈ s.copies := by
      induction hcopied with
      | single hmem => exact ⟨_, hmem⟩
      | tail _ _ ih => exact ih
    obtain ⟨child, hmem⟩ := hfirst
    obtain ⟨original, -, horiginal, -⟩ := (h.made _ hmem).onLadder
    obtain ⟨found, hfound, hsame⟩ := h.sameRecord hcopied horiginal
    exact ⟨original, found, horiginal, hfound, hsame⟩

end

/-- The start of the year 2000. -/
def firstSecond : Utc := ⟨63082281600000000, newYear_lt⟩

/-- A minute later. -/
def nextMinute : Utc := ⟨63082281660000000, by decide⟩

/-- A record fails once; its copy waits on the first tier until it is due, and is then handled. -/
def oneRetry : List Action :=
  let out : Outgoing := { topic := lit "orders", key := none, value := some [1], headers := [] }
  [.kafka (.createTopic (lit "orders") (some 1)),
    .kafka (.createTopic (lit "orders.retry.1") (some 1)), .kafka .newPublisher,
    .kafka (.startPublisher 0), .kafka (.publish 0 out),
    .newConsumer none .defaults [lit "orders"] (lit "app"),
    .newConsumer (some 0) .defaults [lit "orders.retry.1"] (lit "app.retry"),
    .kafka (.start 0), .kafka (.start 1), .kafka (.poll 0), .enter 0 firstSecond,
    .handle 0 (.raised (ExcClass.valueError.error (lit "boom"))), .route 0 firstSecond,
    .finish 0 0, .kafka (.commit 0),
    .kafka (.poll 1), .enter 1 firstSecond, .finish 1 0, .kafka (.seek 1), .kafka (.commit 1),
    .kafka (.poll 1), .enter 1 nextMinute, .handle 1 .returned, .finish 1 0, .kafka (.commit 1)]

theorem never_nowhere_one_retry :
    letI : Unicode := .ascii
    ∃ s, Run (step ⟨{}, 0⟩) Always (Sys.fresh 2) s ∧
      s.kafka.broker.committed (lit "app") ⟨lit "orders", 0⟩ = some 1 ∧
      s.kafka.broker.committed (lit "app.retry") ⟨lit "orders.retry.1", 0⟩ = some 1 ∧
      ⟨⟨lit "orders", 0⟩, 0⟩ ∉ s.returned ∧ ∃ ladder copy,
        s.Copied ⟨⟨lit "orders", 0⟩, 0⟩ copy ∧ s.Rests (lit "app.retry") ladder copy := by
  let : Unicode := .ascii
  refine Run.exists_of_replay_and₃ oneRetry (by decide +kernel) fun hrun horigin _ hfailed => ?_
  obtain ⟨hplaced, -⟩ := never_nowhere hrun _ (lit "app.retry") _ 1 0 horigin Nat.zero_lt_one
  obtain ⟨record, ladder, copy, -, -, hcopied, hrests⟩ := hplaced.resolve_left hfailed
  exact ⟨ladder, copy, hcopied, hrests⟩

end Dlq
