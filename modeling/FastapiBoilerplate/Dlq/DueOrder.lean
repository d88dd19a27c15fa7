import FastapiBoilerplate.Dlq.Routable
import FastapiBoilerplate.Kafka.Broker
import FastapiBoilerplate.Lib.Lists
import FastapiBoilerplate.Lib.Run

/-!
# The order of a retry tier

The consumer of a tier stops at the first record that is not due, which is right as long as
nothing behind it is due earlier. All records of a tier wait equally long, so they are due in the
order in which their routers looked at the clock. They are in the log in the order in which they
were appended, and a call of `route` looks at the clock first and appends at its end.

The system is any number of calls, of routers that share a policy and a clock. The tier is in due
order exactly if no call appends to a partition after one that looked at the clock later.

By the invariant (`Clocked`) each record on a tier is that of a call, due the tier's wait after the
call's look at the clock. A step can then break the order only with the record it appends
(`inDueOrder_step`), and whole runs follow by `Along.strengthen`.
-/

open Lib Kafka List Option

namespace Dlq

/-! ## Tier topics -/

variable {policy : RetryPolicy}

namespace RetryPolicy

/-- The topic of tier `k` of some ladder. -/
def TierTopic (policy : RetryPolicy) (topic : Text) (k : ℕ) : Prop :=
  1 ≤ k ∧ k ≤ policy.tiers ∧ ∃ origin, topic = policy.retryTopic origin k

/-- No dead-letter topic is one. -/
def Separate (policy : RetryPolicy) : Prop :=
  ∀ origin k, ¬ policy.TierTopic (policy.deadLetterTopic origin) k

end RetryPolicy

/-! ## Calls of `route` -/

/-- How far a call has come; at the end, what it read off the clock and where its copy landed. -/
inductive RouteStage
  | called
  | looked (now : Utc)
  | ended (landed : Option (Utc × Partition × ℕ))

structure RouteCall where
  nonRetryable : List ExcClass
  message : ConsumedMessage
  exc : Exc
  stage : RouteStage := .called

structure Routers where
  clock : Utc
  broker : Broker
  calls : List RouteCall := []

inductive RouteAction
  | tick (now : Utc)
  | call (nonRetryable : List ExcClass) (message : ConsumedMessage) (exc : Exc)
  | look (i : ℕ)
  | publish (i : ℕ)
  | fail (i : ℕ)

variable {a : RouteAction} {s : Routers}

section
variable [Unicode] (policy : RetryPolicy)

/-- The rest of a call that looked at the clock: the broker after it, and where the copy is. -/
def RouteCall.append (call : RouteCall) (now : Utc) (broker : Broker) :
    Broker × Option (Partition × ℕ) :=
  let router : DeadLetterRouter := { policy, nonRetryable := call.nonRetryable }
  match router.route call.message call.exc now with
  | .error _ => (broker, none)
  | .ok routed => ((broker.publish routed.record).1, (broker.publish routed.record).2.toOption)

namespace Routers

def setStage (s : Routers) (i : ℕ) (call : RouteCall) (stage : RouteStage) : Routers :=
  { s with calls := s.calls.set i { call with stage } }

/-- A publish may also fail for reasons of its own. -/
def step (s : Routers) : RouteAction → Option Routers
  | .tick now => if s.clock ≤ now then some { s with clock := now } else none
  | .call nonRetryable message exc =>
    some { s with calls := s.calls ++ [{ nonRetryable, message, exc }] }
  | .look i =>
    match s.calls[i]? with
    | some call =>
      match call.stage with
      | .called => some (s.setStage i call (.looked s.clock))
      | _ => none
    | none => none
  | .publish i =>
    match s.calls[i]? with
    | some call =>
      match call.stage with
      | .looked now =>
        let (broker, landed) := call.append policy now s.broker
        some (Routers.setStage { s with broker } i call (.ended (landed.map (now, ·))))
      | _ => none
    | none => none
  | .fail i =>
    match s.calls[i]? with
    | some call =>
      match call.stage with
      | .looked _ => some (s.setStage i call (.ended none))
      | _ => none
    | none => none

end Routers

/-- Within every partition of every tier topic, later records are not due earlier; so whenever one
    is not due, none behind it is. -/
def InDueOrder (broker : Broker) : Prop :=
  ∀ (partition : Partition) (k : ℕ), policy.TierTopic partition.topic k →
    ∀ (i j : ℕ) (record record' : Record) (envelope envelope' : DeadLetterEnvelope), i < j →
      broker.recordAt partition i = some record → broker.recordAt partition j = some record' →
      read (record.consumed partition i) = .ok (some envelope) →
      read (record'.consumed partition j) = .ok (some envelope') →
      envelope.notBefore.micros ≤ envelope'.notBefore.micros ∧
        ∀ now : Utc, 0 < envelope.waitFor now → 0 < envelope'.waitFor now

/-- A call that lands in a partition of a tier topic did not look at the clock earlier than one that
    has landed there. -/
def InClockOrder (s : Routers) : RouteAction → Prop
  | .publish i =>
    ∀ call now partition offset k, s.calls[i]? = some call → call.stage = .looked now →
      (call.append policy now s.broker).2 = some (partition, offset) →
      policy.TierTopic partition.topic k →
      ∀ other ∈ s.calls, ∀ now' offset', other.stage = .ended (some (now', partition, offset')) →
        now' ≤ now
  | _ => True

/-! ## When a copy is due -/

variable {policy} {s' : Routers}

omit [Unicode] in
theorem waitFor_pos_mono {a b : DeadLetterEnvelope} (h : a.notBefore.micros ≤ b.notBefore.micros)
    (now : Utc) (hwait : 0 < a.waitFor now) : 0 < b.waitFor now := by
  have hiff (e : DeadLetterEnvelope) : 0 < e.waitFor now ↔ (now.val : ℤ) < e.notBefore.micros := by
    unfold DeadLetterEnvelope.waitFor
    rw [lt_max_iff, or_iff_right (lt_irrefl 0), div_pos_iff_of_pos_right (by norm_num),
      Int.cast_pos, sub_pos]
  rw [hiff] at hwait ⊢
  exact lt_of_lt_of_le hwait h

/-- A copy on a tier is due when its router looked at the clock, and a tier's wait later. -/
theorem due_of_route (hseparate : policy.Separate) {router : DeadLetterRouter}
    (hpolicy : router.policy = policy) {message : ConsumedMessage} {exc : Exc} {now : Utc}
    {routed : Routed} (h : router.route message exc now = .ok routed) {k : ℕ}
    (htier : policy.TierTopic routed.record.topic k) (number offset : ℕ) :
    ∃ envelope, read (routed.record.consumed number offset) = .ok (some envelope) ∧
      envelope.notBefore.micros = now.val + roundHalfEven (policy.wait k * 1000000) := by
  subst hpolicy
  unfold DeadLetterRouter.route at h
  split at h
  · next previous replays hread =>
    have hroutable := (DeadLetterRouter.returns_routeReadable hread).mp ⟨routed, h⟩
    rw [DeadLetterRouter.routeReadable_eq hroutable.usable] at h
    obtain ⟨envelope, henvelope, h⟩ := bind_eq_ok.mp h
    obtain ⟨record, hrecord, h⟩ := bind_eq_ok.mp h
    cases h
    have hutc := advance_inUtc (DeadLetterRouter.readHeaders_inUtc hread) henvelope
    refine ⟨_, read_republish hutc hrecord number offset, ?_⟩
    obtain ⟨htopic, -, -⟩ := republish_eq_ok hrecord
    dsimp only at htier
    rw [htopic, DeadLetterRouter.destination] at htier
    -- the copy is on the tier of its last failure, since no dead letter is on any
    split at htier
    · next hclimbs =>
      obtain ⟨-, -, origin, horigin⟩ := htier
      obtain rfl := RetryPolicy.index_of_retryTopic horigin
      obtain ⟨due, hdue, hval⟩ := dueAt_eq (router.delay_nonneg exc _) hroutable.inTime
      rw [advance_eq _ _ _ hdue fun hnone => (hroutable.first hnone).1] at henvelope
      cases henvelope
      rw [DeadLetterRouter.delay, if_pos hclimbs] at hval
      have hmicros : due.aware.micros = due.val := by simp [Aware.micros, Utc.aware]
      rw [← hval, ← hmicros]
      cases previous <;> rfl
    · exact absurd htier (hseparate _ k)
  · split at h
    · obtain ⟨ladder, hladder, h⟩ := bind_eq_ok.mp h
      obtain ⟨envelope, -, h⟩ := bind_eq_ok.mp h
      obtain ⟨record, hrecord, h⟩ := bind_eq_ok.mp h
      cases h
      obtain ⟨htopic, -, -⟩ := republish_eq_ok hrecord
      obtain ⟨-, hdead, -, -⟩ := RetryPolicy.ladderFor_eq_ok hladder
      dsimp only at htier
      rw [htopic, hdead] at htier
      exact absurd htier (hseparate _ k)
    · cases h

/-- What the rest of a call does to the broker. -/
structure Appended (policy : RetryPolicy) (now : Utc) (broker broker' : Broker)
    (landed : Option (Partition × ℕ)) : Prop where
  extend : broker.Extends broker'
  only : ∀ partition offset record, broker'.recordAt partition offset = some record →
    broker.recordAt partition offset = some record ∨ landed = some (partition, offset)
  landed : ∀ partition offset, landed = some (partition, offset) →
    broker.recordAt partition offset = none ∧
    ∃ record, broker'.recordAt partition offset = some record ∧
      ∀ k, policy.TierTopic partition.topic k → ∃ envelope,
        read (record.consumed partition offset) = .ok (some envelope) ∧
        envelope.notBefore.micros = now.val + roundHalfEven (policy.wait k * 1000000)

theorem RouteCall.appended (hseparate : policy.Separate) (call : RouteCall) (now : Utc)
    (broker : Broker) : Appended policy now broker (call.append policy now broker).1
      (call.append policy now broker).2 := by
  unfold RouteCall.append
  dsimp only
  split
  · exact ⟨.refl _, fun _ _ _ h => .inl h, nofun⟩
  · next routed hroute =>
    refine ⟨(broker.grown_publish _).logs, ?_, ?_⟩
    · intro partition offset record h
      rcases Broker.recordAt_publish h with h | ⟨hlanded, -⟩
      · exact .inl h
      · rw [hlanded]
        exact .inr rfl
    intro partition offset h
    have hlanded : (broker.publish routed.record).2 = .ok (partition, offset) := by
      cases hpublish : (broker.publish routed.record).2 with
      | error =>
        rw [hpublish] at h
        cases h
      | ok =>
        rw [hpublish] at h
        cases h
        rfl
    obtain ⟨htopic, hnone, hrecord⟩ := Broker.recordAt_of_publish hlanded
    refine ⟨hnone, _, hrecord, ?_⟩
    intro k htier
    rw [htopic] at htier
    have hconsumed : routed.record.toRecord.consumed partition offset =
        routed.record.consumed partition.number offset := by
      simp only [Record.consumed, Outgoing.toRecord, Outgoing.consumed, ← htopic]
    rw [hconsumed]
    exact due_of_route hseparate rfl hroute htier partition.number offset

/-! ## What a step does -/

/-- A call that looked at the clock at `now` has its copy at this place. -/
def Routers.Landed (s : Routers) (now : Utc) (partition : Partition) (offset : ℕ) : Prop :=
  ∃ call ∈ s.calls, call.stage = .ended (some (now, partition, offset))

omit [Unicode] in
theorem Routers.landed_setStage {i : ℕ} {call : RouteCall} {stage : RouteStage}
    (hget : s.calls[i]? = some call) (hopen : ∀ landed, call.stage ≠ .ended landed) (now : Utc)
    (partition : Partition) (offset : ℕ) :
    (s.setStage i call stage).Landed now partition offset ↔
      s.Landed now partition offset ∨ stage = .ended (some (now, partition, offset)) := by
  have hlt := lt_of_getElem? hget
  constructor
  · rintro ⟨other, hmem, hother⟩
    rcases mem_or_eq_of_mem_set hmem with hmem | rfl
    · exact .inl ⟨other, hmem, hother⟩
    · exact .inr hother
  · rintro (⟨other, hmem, hother⟩ | rfl)
    · obtain ⟨j, hj⟩ := mem_iff_getElem?.mp hmem
      have hkept : (s.setStage i call stage).calls[j]? = some other := by
        refine getElem?_set_of_ne hget hj ?_
        rintro rfl
        exact hopen _ hother
      exact ⟨other, mem_of_getElem? hkept, hother⟩
    · exact ⟨_, mem_set hlt _, rfl⟩

/-- What a step can do: nothing that shows, or append what a call has to append. -/
inductive RouteEffect (policy : RetryPolicy) (s s' : Routers) : RouteAction → Prop
  | silent {a : RouteAction} (hpublish : ∀ i, a ≠ .publish i) (hbroker : s'.broker = s.broker)
      (hlanded : ∀ now partition offset,
        s'.Landed now partition offset ↔ s.Landed now partition offset) : RouteEffect policy s s' a
  | append {i : ℕ} {call : RouteCall} {now : Utc} (hcall : s.calls[i]? = some call)
      (hstage : call.stage = .looked now)
      (hbroker : s'.broker = (call.append policy now s.broker).1)
      (hlanded : ∀ now' partition offset, s'.Landed now' partition offset ↔
        s.Landed now' partition offset ∨
          now = now' ∧ (call.append policy now s.broker).2 = some (partition, offset)) :
      RouteEffect policy s s' (.publish i)

theorem effect_of_routeStep (h : s.step policy a = some s') : RouteEffect policy s s' a := by
  cases a with simp only [Routers.step] at h
  | tick =>
    split at h <;> cases h
    exact .silent nofun rfl fun _ _ _ => .rfl
  | call =>
    cases h
    refine .silent nofun rfl fun now partition offset => ?_
    simp [Routers.Landed]
  | look | fail =>
    split at h <;> [split at h; skip] <;> cases h
    refine .silent nofun rfl fun now partition offset => ?_
    rw [Routers.landed_setStage ‹_› (by simp [*])]
    simp
  | publish i =>
    split at h <;> [split at h; skip] <;> cases h
    rename_i call hcall _ now hstage
    refine .append hcall hstage rfl fun now' partition offset => ?_
    have hcall' : ({ s with broker := (call.append policy now s.broker).1 } :
        Routers).calls[i]? = some call := hcall
    rw [Routers.landed_setStage hcall' (by simp [hstage])]
    refine or_congr .rfl ?_
    cases (call.append policy now s.broker).2 with
    | none => simp
    | some => simp [Prod.ext_iff]

/-! ## The invariant -/

/-- What is on a tier is the copy of a call, and is due a tier's wait after the call looked at the
    clock. -/
structure Clocked (policy : RetryPolicy) (s : Routers) : Prop where
  records : ∀ partition offset record k, policy.TierTopic partition.topic k →
    s.broker.recordAt partition offset = some record → ∃ now, s.Landed now partition offset
  landed : ∀ now partition offset, s.Landed now partition offset →
    ∃ record, s.broker.recordAt partition offset = some record ∧
      ∀ k, policy.TierTopic partition.topic k → ∃ envelope,
        read (record.consumed partition offset) = .ok (some envelope) ∧
        envelope.notBefore.micros = now.val + roundHalfEven (policy.wait k * 1000000)

theorem Clocked.step (hseparate : policy.Separate) (h : Clocked policy s)
    (hstep : s.step policy a = some s') : Clocked policy s' := by
  cases effect_of_routeStep hstep with
  | silent hpublish hbroker hlanded =>
    constructor
    · intro partition offset record k htier hrecord
      rw [hbroker] at hrecord
      obtain ⟨now, hnow⟩ := h.records partition offset record k htier hrecord
      exact ⟨now, (hlanded _ _ _).mpr hnow⟩
    · intro now partition offset hnow
      rw [hbroker]
      exact h.landed now partition offset ((hlanded _ _ _).mp hnow)
  | append hcall hstage hbroker hlanded =>
    next i call now =>
    have happended := call.appended hseparate now s.broker
    constructor
    · intro partition offset record k htier hrecord
      rw [hbroker] at hrecord
      rcases happended.only _ _ _ hrecord with hrecord | hplace
      · obtain ⟨now', hnow'⟩ := h.records partition offset record k htier hrecord
        exact ⟨now', (hlanded _ _ _).mpr (.inl hnow')⟩
      · exact ⟨now, (hlanded _ _ _).mpr (.inr ⟨rfl, hplace⟩)⟩
    · intro now' partition offset hnow'
      rw [hbroker]
      rcases (hlanded _ _ _).mp hnow' with hnow' | ⟨rfl, hplace⟩
      · obtain ⟨record, hrecord, hdue⟩ := h.landed now' partition offset hnow'
        exact ⟨record, happended.extend _ _ _ hrecord, hdue⟩
      · exact (happended.landed _ _ hplace).2

/-- **One step**: the tiers are in due order after it exactly if they were before and the step was
    in the order of the clock. -/
theorem inDueOrder_step (hseparate : policy.Separate) (h : Clocked policy s)
    (hstep : s.step policy a = some s') :
    InDueOrder policy s'.broker ↔ InDueOrder policy s.broker ∧ InClockOrder policy s a := by
  have hclocked := h.step hseparate hstep
  cases effect_of_routeStep hstep with
  | silent hpublish hbroker =>
    rw [hbroker, and_iff_left]
    cases a with
    | publish i => exact absurd rfl (hpublish i)
    | _ => trivial
  | append hcall hstage hbroker hlanded =>
    next i call now =>
    have happended := call.appended hseparate now s.broker
    have hextends : s.broker.Extends s'.broker := hbroker ▸ happended.extend
    constructor
    · intro horder
      refine ⟨fun partition k htier i j record record' envelope envelope' hij hi hj =>
        horder partition k htier i j record record' envelope envelope' hij (hextends _ _ _ hi)
          (hextends _ _ _ hj), ?_⟩
      intro call' now' partition offset k hcall' hstage' hplace htier other hother time place hended
      cases hcall.symm.trans hcall'
      cases hstage.symm.trans hstage'
      -- the new record is behind the other one, so by the order it is due no earlier;
      -- as both wait equally long, its router looked at the clock no earlier
      obtain ⟨hnone, record, hrecord, hdue⟩ := happended.landed _ _ hplace
      obtain ⟨envelope, hread, hmicros⟩ := hdue k htier
      obtain ⟨record', hrecord', hdue'⟩ := h.landed time partition place ⟨other, hother, hended⟩
      obtain ⟨envelope', hread', hmicros'⟩ := hdue' k htier
      have hle := (horder partition k htier place offset record' record envelope' envelope
        (Broker.lt_of_recordAt hrecord' hnone) (hextends _ _ _ hrecord')
        (hbroker ▸ hrecord) hread' hread).1
      rw [hmicros, hmicros'] at hle
      exact Fin.le_def.mpr (by omega)
    · rintro ⟨horder, hclock⟩
      intro partition k htier i' j record record' envelope envelope' hij hi hj hread hread'
      rw [hbroker] at hi hj
      rcases happended.only _ _ _ hj with hj | hplace
      · rcases happended.only _ _ _ hi with hi | hplace
        · exact horder partition k htier i' j record record' envelope envelope' hij hi hj hread
            hread'
        · -- nothing lands in front of a record
          have hlt := Broker.lt_of_recordAt hj (happended.landed _ _ hplace).1
          omega
      obtain ⟨-, landed, hlanded', hdue'⟩ := happended.landed _ _ hplace
      cases hj.symm.trans hlanded'
      rcases happended.only _ _ _ hi with hi | hplace'
      -- an old record and the new one: the guard compares the two looks at the clock
      · obtain ⟨now', hnow'⟩ := h.records partition i' record k htier hi
        obtain ⟨earlier, hearlier, hdue⟩ := h.landed now' partition i' hnow'
        cases hi.symm.trans hearlier
        obtain ⟨_, hsome, hmicros⟩ := hdue k htier
        cases hsome.symm.trans hread
        obtain ⟨_, hsome', hmicros'⟩ := hdue' k htier
        cases hsome'.symm.trans hread'
        obtain ⟨other, hother, hended⟩ := hnow'
        have hle := hclock call now partition j k hcall hstage hplace htier other hother now' i'
          hended
        have hdue : envelope.notBefore.micros ≤ envelope'.notBefore.micros := by
          rw [hmicros, hmicros']
          have := Fin.le_def.mp hle
          omega
        exact ⟨hdue, waitFor_pos_mono hdue⟩
      · cases hplace.symm.trans hplace'
        omega

/-- **When a retry tier is in due order**: exactly when every append to it was in the order of the
    clock. -/
theorem due_order_iff (hseparate : policy.Separate) {clock : Utc} {broker : Broker}
    (hempty : ∀ partition offset k, policy.TierTopic partition.topic k →
      broker.recordAt partition offset = none) {actions : List RouteAction} {s : Routers}
    (hrun : Along (Routers.step policy) Always ⟨clock, broker, []⟩ actions s) :
    InDueOrder policy s.broker ↔
      Along (Routers.step policy) (InClockOrder policy) ⟨clock, broker, []⟩ actions s := by
  have hstart : Clocked policy ⟨clock, broker, []⟩ := by
    constructor
    · intro partition offset record k htier hrecord
      cases (hempty partition offset k htier).symm.trans hrecord
    · rintro now partition offset ⟨call, hcall, -⟩
      cases hcall
  constructor
  · intro horder
    exact (hrun.strengthen (fun h _ hstep => h.step hseparate hstep)
      (fun h _ hstep hgood => ((inDueOrder_step hseparate h hstep).mp hgood).symm) hstart
      horder).1
  · intro hguarded
    refine hguarded.run.invariant_with (fun h _ => Clocked.step hseparate h)
      (fun h hdue hclock hstep => (inDueOrder_step hseparate h hstep).mpr ⟨hdue, hclock⟩) hstart ?_
    intro partition k htier i j record record' envelope envelope' _ hi
    cases (hempty partition i k htier).symm.trans hi

end

/-! ## Two calls, two orders -/

/-- A dead-letter suffix that does not end in a digit keeps dead letters off the tiers. -/
theorem RetryPolicy.separate_of_last {c : CodePoint}
    (hlast : policy.deadLetterSuffix.getLast? = some c) (hc : ∀ d < 10, c ≠ digitPoint d) :
    policy.Separate := by
  rintro origin k ⟨-, -, origin', h⟩
  have hdead : (policy.deadLetterTopic origin).getLast? = some c := by
    rw [deadLetterTopic, getLast?_append, hlast]
    rfl
  have htier : (policy.retryTopic origin' k).getLast? = (decimal k).getLast? := by
    rw [retryTopic, getLast?_append]
    cases hdigits : (decimal k).getLast? with
    | none => exact absurd (getLast?_eq_none_iff.mp hdigits) (decimal_ne_nil k)
    | some => rfl
  rw [h, htier] at hdead
  obtain ⟨d, hd, rfl⟩ := digitPoint_of_mem_decimal (mem_of_getLast? hdead)
  exact hc d hd rfl

/-- Two records of one key fail on a topic, and the clock goes on between their failures. -/
def twoFailures : List RouteAction :=
  let message (offset : ℕ) : ConsumedMessage :=
    ⟨⟨lit "orders", 0⟩, offset, some (lit "k"), none, []⟩
  let exc := ExcClass.valueError.error (lit "boom")
  [.call [] (message 0) exc, .call [] (message 1) exc, .look 0,
    .tick ⟨63082281601000000, by decide⟩, .look 1]

/-- The broker they are routed to, and the time. -/
def midnight : Routers := ⟨⟨63082281600000000, newYear_lt⟩, { defaultPartitions := 1 }, []⟩

theorem midnight_empty (partition : Partition) (offset : ℕ) :
    midnight.broker.recordAt partition offset = none := rfl

/-- What a call read off the clock, before its publish and after. -/
def RouteStage.reading : RouteStage → Option Utc
  | .looked now => some now
  | _ => none

def RouteStage.landedAt : RouteStage → Option Utc
  | .ended (some (now, _)) => some now
  | _ => none

/-- No call has ended that looked at the clock later than the one that publishes. -/
def IsLatest (s : Routers) : RouteAction → Prop
  | .publish i =>
    (s.calls[i]?.all fun call => call.stage.reading.all fun now =>
      s.calls.all fun other => other.stage.landedAt.all (· ≤ now)) = true
  | _ => True

instance (s : Routers) : (a : RouteAction) → Decidable (IsLatest s a)
  | .publish _ => inferInstanceAs (Decidable (_ = true))
  | .tick _ | .call .. | .look _ | .fail _ => isTrue trivial

theorem inClockOrder_of_isLatest [Unicode] (h : IsLatest s a) : InClockOrder policy s a := by
  cases a with
  | publish =>
    intro call now partition offset k hcall hstage _ _ other hother now' offset' hended
    simp only [IsLatest, hcall, all_some, hstage, RouteStage.reading, List.all_eq_true] at h
    have hle := h other hother
    rw [hended] at hle
    simpa [RouteStage.landedAt] using hle
  | _ => trivial

/-- Appended in the order in which they looked at the clock. -/
theorem due_order_iff_in_turn :
    letI : Unicode := .ascii
    ∃ s, Along (Routers.step {}) Always midnight (twoFailures ++ [.publish 0, .publish 1]) s ∧
      s.calls.all (·.stage.landedAt.isSome) = true ∧ InDueOrder {} s.broker := by
  let : Unicode := .ascii
  have hrun := Along.get_replay (Routers.step {}) IsLatest midnight
    (twoFailures ++ [.publish 0, .publish 1]) (by decide +kernel)
  have hseparate : ({} : RetryPolicy).Separate :=
    RetryPolicy.separate_of_last (c := 0x74) (by decide) (by decide)
  have halways := hrun.weaken (fun _ _ _ => trivial : ∀ s a, IsLatest s a → Always s a)
  refine ⟨_, halways, by decide +kernel, ?_⟩
  exact (due_order_iff hseparate (fun partition offset _ _ => midnight_empty partition offset)
    halways).mpr (hrun.weaken fun _ _ => inClockOrder_of_isLatest)

theorem toOption_join {α : Type} {x : Except Exc (Option α)} {a : α} (h : x.toOption.join = some a)
    : x = .ok (some a) := by
  cases x with
  | error => cases h
  | ok o =>
    cases o with
    | none => cases h
    | some =>
      cases h
      rfl

/-- The second call appends first. The record behind it is due a second earlier, and waits. -/
theorem due_order_overtaken :
    letI : Unicode := .ascii
    ∃ s, Along (Routers.step {}) Always midnight (twoFailures ++ [.publish 1, .publish 0]) s ∧
      ¬ InDueOrder {} s.broker := by
  let : Unicode := .ascii
  let partition : Partition := ⟨lit "orders.retry.1", 0⟩
  obtain ⟨s, hrun, hs⟩ : ∃ s : Routers, Along (Routers.step {}) Always midnight
      (twoFailures ++ [.publish 1, .publish 0]) s ∧
      ((s.broker.recordAt partition 0).any fun record =>
        (s.broker.recordAt partition 1).any fun record' =>
        (read (record.consumed partition 0)).toOption.join.any fun envelope =>
        (read (record'.consumed partition 1)).toOption.join.any fun envelope' =>
          decide (envelope'.notBefore.micros < envelope.notBefore.micros)) = true := by
    refine Along.exists_of_replay _ ?_
    decide +kernel
  refine ⟨s, hrun, fun horder => ?_⟩
  obtain ⟨record, hrecord, hs⟩ := any_eq_true _ _ |>.mp hs
  obtain ⟨record', hrecord', hs⟩ := any_eq_true _ _ |>.mp hs
  obtain ⟨envelope, hread, hs⟩ := any_eq_true _ _ |>.mp hs
  obtain ⟨envelope', hread', hs⟩ := any_eq_true _ _ |>.mp hs
  have hle := (horder partition 1 ⟨by decide, by decide, lit "orders", by decide⟩ 0 1 record record'
    envelope envelope' (by decide) hrecord hrecord' (toOption_join hread)
    (toOption_join hread')).1
  exact absurd (of_decide_eq_true hs) (not_lt.mpr hle)

end Dlq
