import FastapiBoilerplate.Dlq.RoundTrip
import FastapiBoilerplate.Kafka.Steps

/-!
# Consumers that dead-letter

`src/dlq/handler.py` on top of the consumers of `Kafka.Runner`: every runner's handler is
`with_dead_letter(h, router)` or `retry_tier_handler(h, router)`, all with the same router, whose
publisher is one of the broker's. A call of a handler is taken apart where it can be interrupted:
the gate of `with_due_time`, `h` itself, the router's publish, the return to the runner. A handler
may time out, or its runner be cancelled, at any of these points.

Two ghosts: the records for which `h` returned, and the copies that the router published, each
with the record it is a copy of.
-/

open Lib Kafka

namespace Dlq

/-- Where a record is. -/
structure Place where
  partition : Partition
  offset : ℕ
  deriving DecidableEq

def Place.of (message : ConsumedMessage) : Place := ⟨message.partition, message.offset⟩

/-- A record the router published, and the one it was a copy of. -/
structure Copy where
  parent : Place
  child : Place

/-- What `h` did. -/
inductive Result
  | returned
  | raised (exc : Exc)
  | retryAfter (delay : ℚ)
  deriving DecidableEq

/-- Where a call of a handler stands. -/
inductive Stage
  | entered
  | running
  | failed (exc : Exc)
  | ended (outcome : Outcome)
  deriving DecidableEq

/-- A runner's handler: the grace of its gate, if it is a `retry_tier_handler`, and its call. -/
structure Worker where
  gate : Option ℚ
  stage : Stage := .entered

structure Sys where
  kafka : Kafka.Sys
  workers : List Worker := []
  returned : List Place := []
  copies : List Copy := []

/-- The router of all handlers, and which of the broker's publishers it was given. -/
structure Setup where
  router : DeadLetterRouter
  publisher : ℕ

section
variable [Unicode]

/-- From the call of a handler to that of `h`: the gate of `with_due_time`, if there is one. What
    `read` raises is caught outside of it. -/
def enter (gate : Option ℚ) (message : ConsumedMessage) (now : Utc) : Stage :=
  match gate with
  | none => .running
  | some grace =>
    match read message with
    | .error exc => .failed exc
    | .ok none => .running
    | .ok (some envelope) =>
      let wait := envelope.waitFor now
      if grace < wait then .ended (.retryAfter wait) else .running

/-- `route` with its publish: the broker after it, and where the copy is. -/
def Setup.route (setup : Setup) (kafka : Kafka.Sys) (message : ConsumedMessage) (exc : Exc)
    (now : Utc) : Broker × Except Exc (Partition × ℕ) :=
  match setup.router.route message exc now with
  | .error raised => (kafka.broker, .error raised)
  | .ok routed =>
    match kafka.publishers[setup.publisher]? with
    | some true => kafka.broker.publish routed.record
    | _ => (kafka.broker, .error (ExcClass.lifecycleError.error
        (lit "Publisher is not started. Call start() first.")))

end

def Sys.setStage (s : Sys) (r : ℕ) (stage : Stage) : Sys :=
  { s with workers := s.workers.modify r fun worker => { worker with stage } }

/-- The call that a runner has going, and the record it was made with. -/
def Sys.call (s : Sys) (r : ℕ) : Option (Worker × ConsumedMessage) :=
  (s.workers[r]?).bind fun worker => (s.kafka.atHand r).map fun message => (worker, message)

inductive Action
  | kafka (a : Kafka.Action)
  | newConsumer (gate : Option ℚ) (config : ConsumerConfig) (topics : List Text) (groupId : Text)
  | enter (r : ℕ) (now : Utc)
  | handle (r : ℕ) (result : Result)
  | route (r : ℕ) (now : Utc)
  | finish (r : ℕ) (draw : ℚ)
  | timeout (r : ℕ) (draw : ℚ)

/-- What becomes of the calls when the consumers take a step: a runner that polls, seeks or is
    cancelled has none. -/
def afterKafka : Kafka.Action → Sys → Sys
  | .poll r, s | .seek r, s | .cancel r, s => s.setStage r .entered
  | _, s => s

/-- The end of a call, as the runner sees it. -/
def conclude (s : Sys) (r : ℕ) (outcome : Outcome) (draw : ℚ) : Option Sys :=
  (Kafka.step s.kafka (.handle r outcome draw)).map fun kafka =>
    Sys.setStage { s with kafka } r .entered

section
variable [Unicode]

def step (setup : Setup) (s : Sys) : Action → Option Sys
  | .kafka a =>
    match a with
    | .newRunner .. | .handle .. => none
    | a => (Kafka.step s.kafka a).map fun kafka => afterKafka a { s with kafka }
  | .newConsumer gate config topics groupId =>
    (Kafka.step s.kafka (.newRunner config topics groupId)).map fun kafka =>
      { s with kafka, workers := s.workers ++ [{ gate }] }
  | .enter r now =>
    (s.call r).bind fun (worker, message) =>
      match worker.stage with
      | .entered => some (s.setStage r (enter worker.gate message now))
      | _ => none
  | .handle r result =>
    (s.call r).bind fun (worker, message) =>
      match worker.stage, result with
      | .running, .returned =>
        let s : Sys := { s with returned := s.returned ++ [.of message] }
        some (s.setStage r (.ended .returned))
      | .running, .raised exc => some (s.setStage r (.failed exc))
      | .running, .retryAfter delay => some (s.setStage r (.ended (.retryAfter delay)))
      | _, _ => none
  | .route r now =>
    (s.call r).bind fun (worker, message) =>
      match worker.stage with
      | .failed exc =>
        let (broker, published) := setup.route s.kafka message exc now
        let s : Sys := { s with kafka := { s.kafka with broker } }
        match published with
        | .error _ => some (s.setStage r (.ended .raised))
        | .ok (partition, offset) =>
          let s : Sys := { s with copies := s.copies ++ [⟨.of message, ⟨partition, offset⟩⟩] }
          some (s.setStage r (.ended .returned))
      | _ => none
  | .finish r draw =>
    (s.workers[r]?).bind fun worker =>
      match worker.stage with
      | .ended outcome => conclude s r outcome draw
      | _ => none
  | .timeout r draw => conclude s r .timedOut draw

end

/-- A broker that nobody has used, and nobody there to use it. -/
def Sys.fresh (defaultPartitions : ℕ) : Sys := { kafka := Kafka.Sys.fresh defaultPartitions }

end Dlq
