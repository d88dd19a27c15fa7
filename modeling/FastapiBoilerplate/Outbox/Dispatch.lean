import FastapiBoilerplate.Lib.Text

/-!
# What a dispatch reports

The part of `src/events/bus.py` and `src/events/base.py` that the relay depends on. The bus runs
every subscriber of an event, writes down how each of them ended and raises nothing; that one of
them failed is only visible in its report, and `raise_for_failures` is where the relay looks.

An exception is its type's name and its text. How long a subscriber took is not in the model.
-/

namespace Outbox

open Lib

/-- `type(exc).__name__` and `str(exc)`, of an exception whose `str()` does not raise. -/
structure ExceptionText where
  typeName : Text
  message : Text

/-- `f"{type(exc).__name__}: {exc}"`. -/
def ExceptionText.line (exc : ExceptionText) : Text := exc.typeName ++ lit ": " ++ exc.message

/-- An `Exception` that leaves `_deliver`. -/
inductive Raised
  | other (exc : ExceptionText)
  /-- `EventDispatchError`. -/
  | dispatch (eventName : Text) (errors : List ExceptionText)

def Raised.text : Raised → ExceptionText
  | .other exc => exc
  | .dispatch eventName errors =>
    ⟨lit "EventDispatchError",
      decimal errors.length ++ lit " subscriber(s) of '" ++ eventName ++ lit "' failed."⟩

/-- `_describe`. -/
def describe (raised : Raised) : Text :=
  let described := raised.text.line
  match raised with
  | .dispatch _ (error :: errors) =>
    described ++ lit " [" ++ List.intercalate (lit "; ") ((error :: errors).map ExceptionText.line) ++
      lit "]"
  | _ => described

/-! ## The bus -/

structure SubscriberOutcome where
  subscriber : Text
  ok : Bool
  error : Option ExceptionText := none

structure PublishResult where
  /-- `type(event).event_name`. -/
  eventName : Text
  outcomes : List SubscriberOutcome

/-- `failures`. -/
def PublishResult.failures (result : PublishResult) : List SubscriberOutcome :=
  result.outcomes.filter fun outcome => !outcome.ok

/-- `raise_for_failures`. A failure without an error would go unnoticed. -/
def PublishResult.raiseForFailures (result : PublishResult) : Except Raised Unit :=
  match result.failures.filterMap (·.error) with
  | [] => .ok ()
  | error :: errors => .error (.dispatch result.eventName (error :: errors))

/-- How a handler ended, short of being cancelled. Its own timeout is a `TimeoutError`. -/
inductive HandlerEnd
  | returned
  | raised (exc : ExceptionText)

/-- `_invoke`. -/
def invoke (subscriber : Text) : HandlerEnd → SubscriberOutcome
  | .returned => { subscriber, ok := true }
  | .raised exc => { subscriber, ok := false, error := some exc }

/-- `EventBus.publish`, of the subscribers that match. -/
def publishToAll (eventName : Text) (handlers : List (Text × HandlerEnd)) : PublishResult :=
  { eventName, outcomes := handlers.map fun (subscriber, ended) => invoke subscriber ended }

/-- The bus leaves no failure without its error, so no failure goes unnoticed. -/
theorem raiseForFailures_eq_ok {eventName : Text} {handlers : List (Text × HandlerEnd)} :
    (publishToAll eventName handlers).raiseForFailures = .ok () ↔
      (publishToAll eventName handlers).failures = [] := by
  have hmem : ∀ outcome ∈ (publishToAll eventName handlers).failures, outcome.error ≠ none := by
    intro outcome houtcome
    obtain ⟨hmem, hfailed⟩ := List.mem_filter.mp houtcome
    obtain ⟨⟨subscriber, ended⟩, -, rfl⟩ := List.mem_map.mp hmem
    cases ended with
    | returned => cases hfailed
    | raised exc => exact Option.some_ne_none exc
  unfold PublishResult.raiseForFailures
  cases hfailures : (publishToAll eventName handlers).failures with
  | nil => simp
  | cons outcome =>
    rw [hfailures] at hmem
    obtain ⟨exc, hexc⟩ := Option.ne_none_iff_exists'.mp (hmem outcome List.mem_cons_self)
    simp [hexc]

end Outbox
