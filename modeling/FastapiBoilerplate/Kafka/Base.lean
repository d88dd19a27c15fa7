import FastapiBoilerplate.Lib.Text

/-!
# Records, and the exceptions raised around them

`src/kafka/base.py`: what a record looks like going out (`Outgoing`, the arguments of `publish`)
and coming back (`ConsumedMessage`), and the refusals every publisher makes. Record timestamps
are left out, nothing reads them.

An exception is what the handlers of exceptions can see of one: the class it is an instance of
and that class's bases, `str(exc)`, and for an `AppException` its details. Classes of this code
base and of the language are enumerated; an application's own are told apart by name.
-/

open Lib

namespace Kafka

/-! ## Exceptions -/

inductive ExcClass
  | exception
  | valueError
  | unicodeEncodeError
  | overflowError
  | appException
  | messagingError
  | publishError
  | consumerError
  | messageNotSerializableError
  | messageNotDecodableError
  | lifecycleError
  | deadLetterError
  | malformedEnvelopeError
  | replayNotPossibleError
  | other (name : Text)
  deriving DecidableEq

namespace ExcClass

/-- `cls.__name__`. -/
def name : ExcClass → Text
  | exception => lit "Exception"
  | valueError => lit "ValueError"
  | unicodeEncodeError => lit "UnicodeEncodeError"
  | overflowError => lit "OverflowError"
  | appException => lit "AppException"
  | messagingError => lit "MessagingError"
  | publishError => lit "PublishError"
  | consumerError => lit "ConsumerError"
  | messageNotSerializableError => lit "MessageNotSerializableError"
  | messageNotDecodableError => lit "MessageNotDecodableError"
  | lifecycleError => lit "LifecycleError"
  | deadLetterError => lit "DeadLetterError"
  | malformedEnvelopeError => lit "MalformedEnvelopeError"
  | replayNotPossibleError => lit "ReplayNotPossibleError"
  | other name => name

/-- The classes a class of this code base derives from. -/
def bases : ExcClass → List ExcClass
  | exception => []
  | unicodeEncodeError => [valueError, exception]
  | publishError | consumerError | messageNotSerializableError | messageNotDecodableError
  | lifecycleError => [messagingError, appException, exception]
  | malformedEnvelopeError | replayNotPossibleError => [deadLetterError, appException, exception]
  | messagingError | deadLetterError => [appException, exception]
  | valueError | overflowError | appException | other _ => [exception]

end ExcClass

/-- A value in the details of an `AppException`. -/
inductive Detail
  | text (t : Text)
  | number (n : ℤ)
  deriving DecidableEq

structure Exc where
  cls : ExcClass
  bases : List ExcClass
  /-- `str(exc)` -/
  text : Text
  details : List (Text × Detail) := []
  deriving DecidableEq

/-- `isinstance(exc, cls)`. -/
def Exc.isInstance (exc : Exc) (cls : ExcClass) : Bool := exc.cls == cls || exc.bases.contains cls

/-- An exception of one of the enumerated classes. -/
def ExcClass.error (cls : ExcClass) (text : Text) (details : List (Text × Detail) := []) : Exc :=
  { cls, bases := cls.bases, text, details }

theorem ExcClass.isInstance_error (cls : ExcClass) (text : Text) (details : List (Text × Detail)) :
    (cls.error text details).isInstance cls = true := by
  simp [Exc.isInstance, ExcClass.error]

/-! ## Encoding -/

/-- What `encode` raises: it names the first run of surrogates. -/
def unicodeEncodeError (text : Text) : Exc :=
  let surrogate (c : CodePoint) : Bool := 0xD800 ≤ c.val && c.val < 0xE000
  let before := (text.takeWhile fun c => !surrogate c).length
  let run := (text.drop before).takeWhile surrogate
  let place : Text :=
    match run with
    | [c] => lit "character '\\u" ++ hex 4 c.val ++ lit "' in position " ++ decimal before
    | _ => lit "characters in position " ++ decimal before ++ lit "-" ++
        decimal (before + run.length - 1)
  ExcClass.unicodeEncodeError.error
    (lit "'utf-8' codec can't encode " ++ place ++ lit ": surrogates not allowed")

/-- `text.encode("utf-8")`. -/
def encode (text : Text) : Except Exc Bytes :=
  match utf8Encode text with
  | some bytes => .ok bytes
  | none => .error (unicodeEncodeError text)

/-- `str(n)`, or what formatting `n` raises past the digit limit. -/
def str (n : ℤ) : Except Exc Text :=
  match strInt n with
  | some text => .ok text
  | none => .error (ExcClass.valueError.error
      (lit "Exceeds the limit (4300 digits) for integer string conversion; use sys.set_int_max_str_digits() to increase the limit"))

/-! ## Records -/

/-- Header pairs in wire order; names may repeat. -/
abbrev Headers := List (Text × Bytes)

structure Partition where
  topic : Text
  number : ℕ
  deriving DecidableEq

/-- `str(partition)`. -/
def Partition.str (partition : Partition) : Text :=
  partition.topic ++ lit "-" ++ decimal partition.number

/-- A record as it is handed to `publish`. -/
structure Outgoing where
  topic : Text
  key : Option Text
  value : Option Bytes
  headers : Headers

structure ConsumedMessage where
  partition : Partition
  offset : ℕ
  key : Option Text
  value : Option Bytes
  headers : Headers
  deriving DecidableEq

namespace ConsumedMessage

def topic (message : ConsumedMessage) : Text := message.partition.topic

def nextOffset (message : ConsumedMessage) : ℕ := message.offset + 1

/-- The first value for `name`. -/
def header (message : ConsumedMessage) (name : Text) : Option Bytes := message.headers.lookup name

end ConsumedMessage

/-- The record as it is read back from a place in its topic. -/
def Outgoing.consumed (record : Outgoing) (number offset : ℕ) : ConsumedMessage where
  partition := ⟨record.topic, number⟩
  offset := offset
  key := record.key
  value := record.value
  headers := record.headers

/-- `validate_record`. -/
def validateRecord (topic : Text) (key : Option Text) (value : Option Bytes) : Except Exc Unit :=
  if topic.isEmpty then .error (ExcClass.valueError.error (lit "topic must not be empty."))
  else if value.isNone ∧ key.isNone then
    .error (ExcClass.valueError.error (lit
      "A null value is a tombstone and needs a key. Pass an empty bytes value to send an empty record."))
  else .ok ()

end Kafka
