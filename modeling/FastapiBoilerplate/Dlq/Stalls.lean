import FastapiBoilerplate.Dlq.Conservation
import FastapiBoilerplate.Dlq.Routable

/-!
# What stalls a wrapped consumer

`with_dead_letter` returns once a failure has been routed, so a partition should stall only on a
record that the router could not publish. Two things get past it. A handler that runs into its
timeout is cancelled from outside, and a cancellation is no `Exception`: the wrapper lets it
through, and the runner counts the record as failed. And `route` may raise before it publishes.

`Watched` adds ghosts to the system: which of the calls under way had their publish refused, and
how every call that ended did so.
-/

open Lib Kafka List Option

namespace Dlq

/-- How a call of a handler ended. `committable` is the offset that the batch commits for the
    partition of the record. -/
structure CallEnd where
  place : Place
  outcome : Outcome
  refused : Bool
  committable : Option ℕ
  deriving DecidableEq

structure Watched where
  sys : Sys
  refused : List ℕ := []
  ends : List CallEnd := []

/-- The batch a runner is at. -/
def batchOf : Phase → Option Batch
  | .handling batch _ _ | .seeking batch _ _ | .committing batch => some batch
  | .idle | .leaving => none

/-- What a runner will commit for a partition. -/
def Sys.committable (s : Sys) (r : ℕ) (partition : Partition) : Option ℕ :=
  (s.kafka.runners[r]?).bind fun runner =>
    (batchOf runner.phase).bind fun batch => batch.commits.get partition

/-- A call that is about to be counted as a failure. -/
def Stage.failing : Stage → Bool
  | .ended .raised | .ended .timedOut => true
  | _ => false

/-- The actions that a runner's call is over after. -/
def Action.drops : Action → Option ℕ
  | .finish r _ | .timeout r _ | .kafka (.poll r) | .kafka (.seek r) | .kafka (.cancel r) => some r
  | _ => none

section
variable [Unicode] (setup : Setup)

/-- The router came to its publish, and that raised. -/
def Setup.refuses (kafka : Kafka.Sys) (message : ConsumedMessage) (exc : Exc) (now : Utc) : Bool :=
  match setup.router.route message exc now, (setup.route kafka message exc now).2 with
  | .ok _, .error _ => true
  | _, _ => false

namespace Watched

def refusedAfter (w : Watched) : Action → List ℕ
  | .route r now =>
    match w.sys.call r with
    | some (⟨_, .failed exc⟩, message) =>
      if setup.refuses w.sys.kafka message exc now then r :: w.refused else w.refused
    | _ => w.refused
  | a => w.refused.filter fun r => a.drops ≠ some r

def endOf (w : Watched) (sys : Sys) : Action → Option CallEnd
  | .finish r _ =>
    match w.sys.call r with
    | some (⟨_, .ended outcome⟩, message) =>
      some ⟨.of message, outcome, r ∈ w.refused, sys.committable r message.partition⟩
    | _ => none
  | .timeout r _ =>
    (w.sys.kafka.atHand r).map fun message =>
      ⟨.of message, .timedOut, r ∈ w.refused, sys.committable r message.partition⟩
  | _ => none

def step (w : Watched) (a : Action) : Option Watched :=
  (Dlq.step setup w.sys a).map fun sys =>
    { sys, refused := w.refusedAfter setup a, ends := w.ends ++ (w.endOf sys a).toList }

/-- The environment of a consumer that does not stall: no call runs into its timeout, unless its
    record could not be published, and no failure comes up that cannot be routed. -/
def Orderly (w : Watched) : Action → Prop
  | .timeout r _ => r ∈ w.refused
  | .route r now => ∀ worker message exc, w.sys.call r = some (worker, message) →
      worker.stage = .failed exc → setup.router.Routable message exc now
  | _ => True

end Watched

/-- A call ended as it should: the record was handled or routed and can be committed past, or it is
    not due, or it could not be published. -/
def CallEnd.Justified (s : Sys) (callEnd : CallEnd) : Prop :=
  match callEnd.outcome with
  | .returned => s.Settled callEnd.place ∧ callEnd.committable = some (callEnd.place.offset + 1)
  | .retryAfter _ => True
  | .raised | .timedOut => callEnd.refused = true

/-! ## What a step does to the calls -/

variable {setup} {s s' : Sys} {a : Action} {message : ConsumedMessage} {callEnd : CallEnd} {r : ℕ}
  {draw : ℚ}

/-- What a step does to the calls: nothing is unsettled, and whoever is about to raise was so before,
    or its failure has just not been routed. -/
structure Stepped (setup : Setup) (s : Sys) (a : Action) (s' : Sys) : Prop where
  returned : s.returned ⊆ s'.returned
  copies : s.copies ⊆ s'.copies
  raised : ∀ q worker, s'.workers[q]? = some worker → worker.stage.failing = true →
    (s.workers[q]? = some worker ∧ a.drops ≠ some q) ∨
      ∃ now old message exc raised, a = .route q now ∧ s.call q = some (old, message) ∧
        old.stage = .failed exc ∧ (setup.route s.kafka message exc now).2 = .error raised

theorem Stepped.setStage {t : Sys} {stage : Stage} (hreturned : s.returned ⊆ t.returned)
    (hcopies : s.copies ⊆ t.copies) (hworkers : t.workers = s.workers)
    (hstage : stage.failing = false) (hdrops : ∀ q, a.drops = some q → q = r) :
    Stepped setup s a (t.setStage r stage) where
  returned := hreturned
  copies := hcopies
  raised q worker hworker hfailing := by
    rcases getElem?_setStage hworker with ⟨-, rfl⟩ | ⟨hne, hold⟩
    · cases hfailing.symm.trans hstage
    · exact .inl ⟨hworkers ▸ hold, fun h => hne (hdrops q h)⟩

theorem Stepped.conclude {outcome : Outcome} (hstep : Dlq.conclude s r outcome draw = some s')
    (hdrops : ∀ q, a.drops = some q → q = r) : Stepped setup s a s' := by
  obtain ⟨kafka, -, rfl⟩ := map_eq_some_iff.mp hstep
  exact .setStage (List.Subset.refl _) (List.Subset.refl _) rfl rfl hdrops

theorem step_stepped (hstep : Dlq.step setup s a = some s') : Stepped setup s a s' := by
  have hreturned := List.Subset.refl s.returned
  have hcopies := List.Subset.refl s.copies
  cases a with
  | kafka a =>
    simp only [step] at hstep
    split at hstep
    · cases hstep
    · cases hstep
    obtain ⟨kafka, -, rfl⟩ := map_eq_some_iff.mp hstep
    cases a with
    | poll | seek | cancel =>
      exact .setStage hreturned hcopies rfl rfl fun q h => (some.inj h).symm
    | _ => exact ⟨hreturned, hcopies, fun q worker hworker _ => .inl ⟨hworker, by rintro ⟨⟩⟩⟩
  | newConsumer =>
    obtain ⟨kafka, -, rfl⟩ := map_eq_some_iff.mp hstep
    refine ⟨hreturned, hcopies, fun q worker hworker hfailing => ?_⟩
    rcases getElem?_append_cases hworker with ⟨-, rfl⟩ | ⟨-, hworker⟩
    · cases hfailing
    · exact .inl ⟨hworker, by rintro ⟨⟩⟩
  | enter r now =>
    obtain ⟨⟨old, message⟩, -, hstep⟩ := bind_eq_some_iff.mp hstep
    dsimp only at hstep
    split at hstep <;> cases hstep
    have hentered : (enter old.gate message now).failing = false := by
      simp only [enter]
      repeat' split
      all_goals rfl
    exact .setStage hreturned hcopies rfl hentered (by rintro _ ⟨⟩)
  | handle =>
    obtain ⟨⟨old, message⟩, -, hstep⟩ := bind_eq_some_iff.mp hstep
    dsimp only at hstep
    split at hstep <;> cases hstep
    · exact .setStage (subset_append_left _ _) hcopies rfl rfl (by rintro _ ⟨⟩)
    · exact .setStage hreturned hcopies rfl rfl (by rintro _ ⟨⟩)
    · exact .setStage hreturned hcopies rfl rfl (by rintro _ ⟨⟩)
  | route r now =>
    obtain ⟨⟨old, message⟩, hcall, hstep⟩ := bind_eq_some_iff.mp hstep
    dsimp only at hstep
    split at hstep <;> [skip; cases hstep]
    rename_i exc hfailed
    cases hroute : (setup.route s.kafka message exc now).2 with
    | error raised =>
      rw [hroute] at hstep
      cases hstep
      refine ⟨hreturned, hcopies, fun q worker hworker _ => ?_⟩
      rcases getElem?_setStage hworker with ⟨rfl, -⟩ | ⟨-, hold⟩
      · exact .inr ⟨now, old, message, exc, raised, rfl, hcall, hfailed, hroute⟩
      · exact .inl ⟨hold, by rintro ⟨⟩⟩
    | ok =>
      rw [hroute] at hstep
      cases hstep
      exact .setStage hreturned (subset_append_left _ _) rfl rfl (by rintro _ ⟨⟩)
  | finish =>
    obtain ⟨old, -, hstep⟩ := bind_eq_some_iff.mp hstep
    split at hstep
    · exact .conclude hstep fun q h => (some.inj h).symm
    · cases hstep
  | timeout => exact .conclude hstep fun q h => (some.inj h).symm

theorem Sys.Settled.step (hstep : Dlq.step setup s a = some s') {place : Place}
    (h : s.Settled place) : s'.Settled place :=
  h.mono (step_stepped hstep).returned (step_stepped hstep).copies

omit [Unicode] in
theorem commits_nextPartition (batch : Batch) (rest : List (Partition × List ConsumedMessage)) :
    (batchOf (batch.nextPartition rest)).map (·.commits) = some batch.commits := by
  induction rest with
  | nil => rfl
  | cons head rest ih =>
    obtain ⟨partition, records⟩ := head
    cases records with
    | nil => exact ih
    | cons => rfl

omit [Unicode] in
theorem committable_of_conclude (hhand : s.kafka.atHand r = some message)
    (hstep : conclude s r .returned draw = some s') :
    s'.committable r message.partition = some message.nextOffset := by
  obtain ⟨kafka, hkafka, rfl⟩ := map_eq_some_iff.mp hstep
  obtain ⟨runner, batch, behind, hrunner, hphase⟩ := Kafka.atHand_eq_some hhand
  simp only [Kafka.step, hrunner, hphase] at hkafka
  cases hkafka
  have hlt := lt_of_getElem? hrunner
  have hcommits (batch' : Batch) (hbatch : batch'.commits.get message.partition =
      some message.nextOffset) : (batchOf (batch'.nextRecord behind)).bind
        (fun b => b.commits.get message.partition) = some message.nextOffset := by
    cases behind with
    | cons => exact hbatch
    | nil =>
      obtain ⟨b, hb, hsame⟩ := map_eq_some_iff.mp (commits_nextPartition batch' batch'.rest)
      rw [Batch.nextRecord, hb, bind_some, hsame]
      exact hbatch
  show (((s.kafka.runners.set r (runner.settle batch message behind .returned draw))[r]?).bind
    _) = _
  rw [getElem?_set_self hlt, bind_some]
  exact hcommits _ (Dict.get_set_self _ _ _)

/-! ## The invariant -/

/-- Whatever is about to fail could not be published, and whatever ended did so as it should. -/
structure Watching (setup : Setup) (w : Watched) : Prop where
  kept : Kept setup w.sys
  failing : ∀ (r : ℕ) (worker : Worker), w.sys.workers[r]? = some worker →
    worker.stage.failing = true → r ∈ w.refused
  justified : ∀ callEnd ∈ w.ends, callEnd.Justified w.sys

omit [Unicode] in
theorem CallEnd.Justified.of_settled (h : callEnd.Justified s)
    (hsettled : ∀ place, s.Settled place → s'.Settled place) : callEnd.Justified s' := by
  unfold CallEnd.Justified at *
  split at h
  · exact ⟨hsettled _ h.1, h.2⟩
  · trivial
  · exact h
  · exact h

/-- A record that can be routed and was not could not be published. -/
theorem refuses_of_error {kafka : Kafka.Sys} {exc raised : Exc} {now : Utc}
    (hroutable : setup.router.Routable message exc now)
    (herror : (setup.route kafka message exc now).2 = .error raised) :
    setup.refuses kafka message exc now = true := by
  obtain ⟨routed, hrouted⟩ := (setup.router.returns_route message exc now).mpr hroutable
  rw [Setup.refuses, hrouted, herror]

variable {w w' : Watched}

theorem Watched.mem_refusedAfter {q : ℕ} (h : q ∈ w.refused) (hdrops : a.drops ≠ some q) :
    q ∈ w.refusedAfter setup a := by
  cases a with
  | route =>
    simp only [refusedAfter]
    split
    · split
      · exact mem_cons_of_mem _ h
      · exact h
    · exact h
  | _ => exact mem_filter.mpr ⟨h, by simpa using hdrops⟩

section

variable (h : Watching setup w) (horderly : w.Orderly setup a)

include h horderly

theorem Watching.failing_step {sys : Sys} (hstep : Dlq.step setup w.sys a = some sys)
    {worker : Worker} (hworker : sys.workers[r]? = some worker)
    (hfailing : worker.stage.failing = true) : r ∈ w.refusedAfter setup a := by
  rcases (step_stepped hstep).raised r worker hworker hfailing with ⟨hold, hdrops⟩ |
    ⟨now, old, message, exc, raised, rfl, hcall, hstage, herror⟩
  · exact Watched.mem_refusedAfter (h.failing r worker hold hfailing) hdrops
  have hrefuses := refuses_of_error (horderly old message exc hcall hstage) herror
  obtain ⟨gate, stage⟩ := old
  obtain rfl : stage = .failed exc := hstage
  simp only [Watched.refusedAfter, hcall, hrefuses, if_true]
  exact mem_cons_self

/-- A call that ends now ends as it should. -/
theorem Watching.justified_end {sys : Sys} (hstep : Dlq.step setup w.sys a = some sys)
    (hend : w.endOf sys a = some callEnd) : callEnd.Justified sys := by
  cases a with
  | finish r =>
    simp only [Watched.endOf] at hend
    split at hend
    · next gate outcome message hcall =>
      cases hend
      obtain ⟨hworker, hhand⟩ := call_eq_some hcall
      cases outcome with
      | returned =>
        refine ⟨(h.kept.ended r _ message hworker rfl hhand).step hstep, ?_⟩
        obtain ⟨old, hold, hstep⟩ := bind_eq_some_iff.mp hstep
        cases hworker.symm.trans hold
        exact committable_of_conclude hhand hstep
      | retryAfter => trivial
      | raised | timedOut =>
        exact decide_eq_true (h.failing r _ hworker rfl)
    · cases hend
  | timeout =>
    obtain ⟨message, hhand, rfl⟩ := map_eq_some_iff.mp hend
    exact decide_eq_true horderly
  | _ => cases hend

theorem Watching.step (hstep : w.step setup a = some w') : Watching setup w' := by
  obtain ⟨sys, hsys, rfl⟩ := map_eq_some_iff.mp hstep
  refine ⟨step_kept h.kept hsys, fun r worker => h.failing_step horderly hsys, ?_⟩
  intro callEnd hmem
  rcases mem_append.mp hmem with hmem | hmem
  · exact (h.justified callEnd hmem).of_settled fun place => Sys.Settled.step hsys
  · exact h.justified_end horderly hsys (mem_toList.mp hmem)

end

/-- **What a wrapped consumer stalls on.** As long as no call runs into its timeout and every
    failure can be routed, a record is counted as failed only if the router's publish raised for
    it; whatever else became of it, it was handled or routed and can be committed past. -/
theorem stalls_only_if_refused {setup : Setup} {defaultPartitions : ℕ} {w : Watched}
    (hrun : Run (Watched.step setup) (Watched.Orderly setup) ⟨Sys.fresh defaultPartitions, [], []⟩
      w) : ∀ callEnd ∈ w.ends, callEnd.Justified w.sys := by
  have hstart : Watching setup ⟨Sys.fresh defaultPartitions, [], []⟩ := by
    exact ⟨kept_fresh defaultPartitions, nofun, nofun⟩
  exact (hrun.invariant (fun h => Watching.step h) hstart).justified

end

/-! ## Two runs -/

/-- No call times out, and what is routed can be. -/
def Watched.Plain [Unicode] (setup : Setup) (w : Watched) : Action → Prop
  | .timeout _ _ => False
  | .route r now => (w.sys.call r).all (fun (worker, message) =>
      match worker.stage with
      | .failed exc => (setup.router.route message exc now).toOption.isSome
      | _ => true) = true
  | _ => True

instance [Unicode] (setup : Setup) (w : Watched) : (a : Action) → Decidable (w.Plain setup a)
  | .timeout _ _ => isFalse id
  | .route _ _ => inferInstanceAs (Decidable (_ = true))
  | .kafka _ | .newConsumer .. | .enter .. | .handle .. | .finish .. => isTrue trivial

theorem Watched.orderly_of_plain [Unicode] {setup : Setup} {w : Watched} {a : Action}
    (h : w.Plain setup a) : w.Orderly setup a := by
  cases a with
  | timeout => exact h.elim
  | route r now =>
    intro worker message exc hcall hstage
    simp only [Plain, hcall, all_some, hstage] at h
    rw [← DeadLetterRouter.returns_route]
    cases hroute : setup.router.route message exc now with
    | error =>
      rw [hroute] at h
      cases h
    | ok routed => exact returns_ok routed
  | _ => trivial

/-- A publisher and a consumer, and a record that the consumer has been handed. -/
def handed : List Action :=
  let out : Outgoing := { topic := lit "orders", key := none, value := some [1], headers := [] }
  [.kafka (.createTopic (lit "orders") (some 1)), .kafka .newPublisher,
    .kafka (.startPublisher 0), .kafka (.publish 0 out),
    .newConsumer none .defaults [lit "orders"] (lit "app"), .kafka (.start 0), .kafka (.poll 0),
    .enter 0 firstSecond]

/-- The handler fails once while the publisher works, and the record is routed; the call returns. -/
theorem stalls_only_if_refused_routed :
    letI : Unicode := .ascii
    ∃ w, Run (Watched.step ⟨{}, 0⟩) (Watched.Orderly ⟨{}, 0⟩) ⟨Sys.fresh 2, [], []⟩ w ∧
      w.ends.map (·.outcome) = [.returned] ∧ ∀ callEnd ∈ w.ends, callEnd.Justified w.sys := by
  let : Unicode := .ascii
  have hrun := (Along.get_replay (Watched.step ⟨{}, 0⟩) (Watched.Plain ⟨{}, 0⟩) ⟨Sys.fresh 2, [], []⟩
    (handed ++ [.handle 0 (.raised (ExcClass.valueError.error (lit "boom"))), .route 0 firstSecond,
      .finish 0 0]) (by decide +kernel)).run.weaken fun _ _ => Watched.orderly_of_plain
  exact ⟨_, hrun, by decide +kernel, stalls_only_if_refused hrun⟩

/-- The handler runs into its timeout: nothing was published, and the record is counted as
    failed. -/
theorem stalls_on_timeout :
    letI : Unicode := .ascii
    ∃ w, Run (Watched.step ⟨{}, 0⟩) Always ⟨Sys.fresh 2, [], []⟩ w ∧
      ∃ callEnd ∈ w.ends, callEnd.outcome = .timedOut ∧ callEnd.committable = none ∧
        ¬ w.sys.Settled callEnd.place ∧ ¬ callEnd.Justified w.sys := by
  let : Unicode := .ascii
  have hrun := Along.get_replay (Watched.step ⟨{}, 0⟩) Always ⟨Sys.fresh 2, [], []⟩
    (handed ++ [.timeout 0 0]) (by decide +kernel)
  refine ⟨_, hrun.run, ⟨⟨⟨lit "orders", 0⟩, 0⟩, .timedOut, false, none⟩, by decide +kernel, rfl, rfl,
    ?_, Bool.false_ne_true⟩
  rintro (hmem | ⟨copy, hmem, -⟩)
  · exact absurd hmem (by decide +kernel)
  · exact eq_nil_iff_forall_not_mem.mp (by decide +kernel) copy hmem

end Dlq
