import FastapiBoilerplate.Kafka.AtLeastOnce

/-!
# What a step leaves alone

For systems built on top of the consumers. No step takes a record out of a log; a runner comes to
have a record at hand only by a step of its own; and only a handler that returned is handled.
-/

open Lib Option

namespace Kafka

/-- The record a runner's handler has been called with. -/
def Phase.atHand : Phase → Option ConsumedMessage
  | handling _ record _ => some record
  | idle | seeking _ _ _ | committing _ | leaving => none

def Sys.atHand (s : Sys) (r : ℕ) : Option ConsumedMessage :=
  (s.runners[r]?).bind fun runner => runner.phase.atHand

/-- The steps after which a runner may have another record at hand. -/
def Action.begins (r : ℕ) : Action → Prop
  | poll r' | handle r' _ _ | seek r' => r' = r
  | _ => False

/-- What a step leaves alone. -/
structure Framed (s : Sys) (a : Action) (s' : Sys) : Prop where
  logs : s.broker.Extends s'.broker
  atHand : ∀ r message, s'.atHand r = some message → s.atHand r = some message ∨ a.begins r
  handled : ∀ delivery ∈ s'.handled, delivery ∈ s.handled ∨ ∃ r draw message runner,
    a = .handle r .returned draw ∧ s.atHand r = some message ∧ s.runners[r]? = some runner ∧
      delivery = ⟨runner.source.groupId, message.partition, message.offset⟩

section
variable {s : Sys} {r : ℕ} {runner runner' : Runner} {a : Action}

variable {message : ConsumedMessage} {s' : Sys}

theorem atHand_eq_some (h : s.atHand r = some message) :
    ∃ runner batch behind, s.runners[r]? = some runner ∧
      runner.phase = .handling batch message behind := by
  obtain ⟨runner, hrunner, h⟩ := bind_eq_some_iff.mp h
  cases hphase : runner.phase with
  | handling batch record behind =>
    rw [hphase] at h
    cases h
    exact ⟨runner, batch, behind, hrunner, hphase⟩
  | idle | seeking | committing | leaving =>
    rw [hphase] at h
    cases h

section

variable (hrunners : s'.runners = s.runners.set r runner') (hrunner : s.runners[r]? = some runner)
  (hphase : ∀ message, runner'.phase.atHand = some message →
    runner.phase.atHand = some message ∨ a.begins r)

include hrunners hrunner hphase

/-- A runner in the place of another that has the same record at hand, or has just come by it. -/
theorem atHand_set {q : ℕ} (h : s'.atHand q = some message) :
    s.atHand q = some message ∨ a.begins q := by
  unfold Sys.atHand at h ⊢
  rw [hrunners] at h
  obtain ⟨found, hfound, hmessage⟩ := bind_eq_some_iff.mp h
  rcases getElem?_set_cases hfound with ⟨rfl, rfl⟩ | ⟨-, hfound⟩
  · rw [hrunner]
    exact hphase message hmessage
  · rw [hfound]
    exact .inl hmessage

theorem Framed.of_runner (hlogs : s.broker.Extends s'.broker) (hhandled : s'.handled = s.handled) :
    Framed s a s' where
  logs := hlogs
  atHand _ _ := atHand_set hrunners hrunner hphase
  handled _ hmem := .inl (hhandled ▸ hmem)

end

/-- A rebalance leaves what runners have at hand. -/
theorem atHand_of_frame (hframe : s'.runners.map Runner.frame = s.runners.map Runner.frame) (q : ℕ)
    : s'.atHand q = s.atHand q := by
  have hphase : ∀ runners : List Runner, (runners[q]?).bind (fun runner => runner.phase.atHand) =
      ((runners.map Runner.frame)[q]?).bind fun runner => runner.phase.atHand := by
    intro runners
    rw [List.getElem?_map, bind_map]
    rfl
  rw [Sys.atHand, hphase, hframe, ← hphase, Sys.atHand]

theorem Framed.of_same (hrunners : s'.runners = s.runners) (hlogs : s.broker.Extends s'.broker)
    (hhandled : s'.handled = s.handled) : Framed s a s' where
  logs := hlogs
  atHand _ _ h := .inl (by rwa [Sys.atHand, hrunners] at h)
  handled _ hmem := .inl (hhandled ▸ hmem)

theorem Framed.rebalance {s₁ : Sys} (h : Framed s a s₁) (id : Text) :
    Framed s a (s₁.rebalance id) := by
  have hbalanced := rebalance_rebalanced s₁ id
  refine ⟨h.logs.trans hbalanced.logs, ?_, h.handled⟩
  intro q message hmessage
  rw [atHand_of_frame hbalanced.frame] at hmessage
  exact h.atHand q message hmessage

theorem framed_newRunner (hidle : runner.phase = .idle)
    (hs' : s' = { s with runners := s.runners ++ [runner] }) : Framed s a s' := by
  subst hs'
  refine ⟨.refl _, ?_, fun delivery hmem => .inl hmem⟩
  intro q message h
  obtain ⟨found, hfound, hmessage⟩ := bind_eq_some_iff.mp h
  rcases getElem?_append_cases hfound with ⟨-, rfl⟩ | ⟨-, hfound⟩
  · rw [hidle] at hmessage
    cases hmessage
  · left
    rw [Sys.atHand, hfound]
    exact hmessage

theorem framed_handle {batch : Batch} {behind : List ConsumedMessage}
    (hrunner : s.runners[r]? = some runner) (hphase : runner.phase = .handling batch message behind)
    (outcome : Outcome) (draw : ℚ) :
    Framed s (.handle r outcome draw) { s with
      runners := s.runners.set r (runner.settle batch message behind outcome draw)
      handled := if outcome = .returned then
        s.handled ++ [⟨runner.source.groupId, message.partition, message.offset⟩]
        else s.handled } := by
  have hbegins : (Action.handle r outcome draw).begins r := rfl
  refine ⟨.refl _, fun _ _ => atHand_set rfl hrunner fun _ _ => .inr hbegins, ?_⟩
  intro delivery hmem
  by_cases hreturned : outcome = .returned
  · simp only [hreturned, if_true] at hmem
    rcases List.mem_append.mp hmem with hmem | hmem
    · exact .inl hmem
    refine .inr ⟨r, draw, message, runner, by rw [hreturned], ?_, hrunner,
      List.mem_singleton.mp hmem⟩
    rw [Sys.atHand, hrunner, bind_some, hphase]
    rfl
  · simp only [hreturned, if_false] at hmem
    exact .inl hmem

theorem extends_commit (source : Source) (broker : Broker) (offsets : List (Partition × ℤ)) :
    broker.Extends (source.commit broker offsets).1 := by
  unfold Source.commit
  split
  · exact .refl _
  split
  · exact .refl _
  · exact .of_topics rfl

theorem Framed.of_rested (hrunners : s'.runners = s.runners.set r runner')
    (hrunner : s.runners[r]? = some runner)
    (hphase : runner'.phase = runner.phase ∨ runner'.phase = .idle)
    (hlogs : s.broker.Extends s'.broker) (hhandled : s'.handled = s.handled) : Framed s a s' := by
  refine .of_runner hrunners hrunner ?_ hlogs hhandled
  intro message h
  rcases hphase with hphase | hphase
  · exact .inl (hphase ▸ h)
  · rw [hphase] at h
    cases h

theorem step_framed (hstep : step s a = some s') : Framed s a s' := by
  cases step_move hstep with
  | createTopic hbroker => exact .of_same rfl (Broker.grown_createTopic hbroker).logs rfl
  | publishers | started => exact .of_same rfl (.refl _) rfl
  | publish p out => exact .of_same rfl (s.broker.grown_publish out).logs rfl
  | newRunner => exact framed_newRunner rfl rfl
  | join hrunner =>
    apply Framed.rebalance
    exact .of_rested rfl hrunner (.inl rfl) (.of_topics rfl) rfl
  | leave hrunner hrested =>
    apply Framed.rebalance
    exact .of_rested rfl hrunner hrested.phase (.of_topics rfl) rfl
  | rest hrunner hrested => exact .of_rested rfl hrunner hrested.phase (.refl _) rfl
  | poll hrunner | seek hrunner => exact .of_runner rfl hrunner (fun _ _ => .inr rfl) (.refl _) rfl
  | handle hrunner hphase outcome draw => exact framed_handle hrunner hphase outcome draw
  | commit hrunner _ hbroker =>
    refine .of_rested rfl hrunner (.inr rfl) ?_ rfl
    rcases hbroker with rfl | rfl
    · exact .refl _
    · exact extends_commit _ _ _
  | cancel hrunner => exact .of_runner rfl hrunner (nofun) (.refl _) rfl

end

end Kafka
