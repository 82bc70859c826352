import LocalEmu.Core.Lambda.CountingService
import Mathlib.Data.List.Infix

/-!
# Asynchronous Invocations

An asynchronous invocation is a message in a queue. The event manager invokes
the function for it and then deletes the message. Before that it may have sent
the message again, with two counters: `retries` counts the function errors, and
`exception_retries` is meant to count the throttles and system errors in a row.

An event that is given up is reported to the failure destination and put into
the dead-letter queue. An exception of the first is one of the attempt. One of
the second is logged, so that the dead letter is lost.

The queues do what they are asked to. What the text of a message and the payloads
look like is left to a `Codec`: the encoding of payloads, times and trace
headers, the text of a payload, which it has if it is UTF-8, and JSON values.
-/

namespace LocalEmu.Lambda.EventManager

/-- An entry for a dead-letter queue: its body and the attribute `ErrorMessage`. -/
structure DeadLetter where
  messageBody : String
  errorMessage : String
  deriving DecidableEq

/-- The payloads, times, trace headers and JSON values. -/
structure Codec (π τ θ ν : Type) where
  encodePayload : π → String
  decodePayload : String → Option π
  isoformat : τ → String
  fromisoformat : String → Option τ
  headerStr : θ → String
  fromHeaderStr : String → Option θ
  /-- `to_str`, which raises if the payload is not UTF-8. -/
  text : π → Option String
  /-- `json.loads`, which raises if the text is no JSON, and `json.dumps`. -/
  loads : String → Option ν
  dumps : ν → String
  /-- A text as a value, and as the member `raw_payload` of an object. -/
  ofText : String → ν
  rawPayload : String → ν
  /-- The member `errorMessage` of an object, if it has one. It is `none` if the value is no
      object, or if the member is no text for an attribute of a message. -/
  errorMessage : ν → Option (Option String)
  /-- The messages for a source ARN of SQS or SNS, from the members of the event. -/
  serviceMessages : String → ν → Option String → Option (List DeadLetter)
  isEmpty : π → Bool
  null : ν
  emptyObject : ν

variable {π τ θ ν : Type}

/-- The JSON value of a payload, or else its text. It is `none` if it has none. -/
def Codec.value (codec : Codec π τ θ ν) (payload : π) : Option ν :=
  (codec.text payload).map fun text => (codec.loads text).getD (codec.ofText text)

/-- The event in a dead letter. -/
def Codec.event (codec : Codec π τ θ ν) (payload : π) : Option ν :=
  (codec.text payload).map fun text => (codec.loads text).getD (codec.rawPayload text)

/-- `to_str` of the payload of a result, which may be `None`. -/
def Codec.resultText (codec : Codec π τ θ ν) : Option π → Option (Option String)
  | none => some none
  | some payload => (codec.text payload).map some

/-- `Invocation`. Of the trace context only the header is used. -/
structure Invocation (π τ θ : Type) where
  payload : π
  invokedArn : String
  clientContext : Option String
  invocationType : String
  invokeTime : τ
  requestId : String
  traceHeader : θ
  deriving DecidableEq

structure SQSInvocation (π τ θ : Type) where
  invocation : Invocation π τ θ
  retries : Nat
  exceptionRetries : Nat
  deriving DecidableEq

/-- The JSON object in the body of a message. -/
structure Message where
  payload : String
  invokedArn : String
  clientContext : Option String
  invocationType : String
  invokeTime : String
  requestId : String
  retries : Nat
  exceptionRetries : Nat
  traceHeader : String
  deriving DecidableEq

namespace SQSInvocation

def encode (codec : Codec π τ θ ν) (s : SQSInvocation π τ θ) : Message where
  payload := codec.encodePayload s.invocation.payload
  invokedArn := s.invocation.invokedArn
  clientContext := s.invocation.clientContext
  invocationType := s.invocation.invocationType
  invokeTime := codec.isoformat s.invocation.invokeTime
  requestId := s.invocation.requestId
  retries := s.retries
  exceptionRetries := s.exceptionRetries
  traceHeader := codec.headerStr s.invocation.traceHeader

def decode (codec : Codec π τ θ ν) (message : Message) : Option (SQSInvocation π τ θ) := do
  let payload ← codec.decodePayload message.payload
  let invokeTime ← codec.fromisoformat message.invokeTime
  let traceHeader ← codec.fromHeaderStr message.traceHeader
  return ⟨⟨payload, message.invokedArn, message.clientContext, message.invocationType, invokeTime,
    message.requestId, traceHeader⟩, message.retries, message.exceptionRetries⟩

end SQSInvocation

/-- `EventInvokeConfig`, with the two destinations. -/
structure EventInvokeConfig where
  maximumRetryAttempts : Option Nat
  maximumEventAgeInSeconds : Option Nat
  onSuccess : Option String
  onFailure : Option String
  deriving DecidableEq

/-- What the event manager reads of the function and of the configuration. -/
structure Settings where
  eventInvokeConfig : Option EventInvokeConfig
  reservedConcurrentExecutions : Option Nat
  functionArn : String
  deadLetterArn : Option String
  retryBaseDelaySeconds : Nat

namespace Settings

/-- `DEFAULT_MAX_RETRY_ATTEMPTS`, unless it is configured. -/
def maxRetryAttempts (settings : Settings) : Nat :=
  (settings.eventInvokeConfig.bind EventInvokeConfig.maximumRetryAttempts).getD 2

/-- `DEFAULT_MAXIMUM_EVENT_AGE_SECONDS`, unless it is configured. -/
def maximumEventAge (settings : Settings) : Nat :=
  (settings.eventInvokeConfig.bind EventInvokeConfig.maximumEventAgeInSeconds).getD (6 * 60 * 60)

/-- The queue or topic for dead letters, unless it is missing or empty. -/
def deadLetterQueue (settings : Settings) : Option String :=
  settings.deadLetterArn.filter (· ≠ "")

end Settings

/-- `":sqs:" in arn or ":sns:" in arn`. -/
def isOfQueueOrTopic (arn : String) : Bool :=
  decide (":sqs:".toList <:+: arn.toList) || decide (":sns:".toList <:+: arn.toList)

/-- `has_enough_time_for_retry`. The time that has passed is in seconds, rounded up. -/
def hasEnoughTimeForRetry (settings : Settings) (s : SQSInvocation π τ θ) (timePassed : Nat) :
    Bool :=
  settings.maximumEventAge ≠ 0 &&
    timePassed + (s.retries + 1) * settings.retryBaseDelaySeconds ≤ settings.maximumEventAge

/-- What `invoke` does: it returns a result or raises an exception. -/
inductive Outcome (π : Type)
  | result (isError : Bool) (payload : Option π)
  /-- A `TooManyRequestsException`, which is a throttle, or a system error. -/
  | exception (isThrottle : Bool)
  deriving DecidableEq

/-- An attempt, and the time that has passed after it since the event. -/
structure Attempt (π : Type) where
  outcome : Outcome π
  timePassed : Nat
  deriving DecidableEq

/-- The invocation record for a destination. -/
structure Notification (ν : Type) where
  destination : String
  condition : String
  approximateInvokeCount : Nat
  requestPayload : ν
  functionError : Option String
  responsePayload : Option ν
  deriving DecidableEq

/-- What is left of a message. The notifications go to the destinations that are configured, and
    the dead letters to the dead-letter queue. -/
inductive Left (π τ θ ν : Type)
  | succeeded (notification : Option (Notification ν))
  | enqueued (message : Message) (delaySeconds : Nat)
  | failed (cause : String) (notification : Option (Notification ν))
      (deadLetters : List DeadLetter)
  deriving DecidableEq

variable (codec : Codec π τ θ ν) (settings : Settings)

variable (s : SQSInvocation π τ θ) (payload : Option π)

/-- `process_success_destination`. It is `none` if it raises. -/
def processSuccessDestination : Option (Option (Notification ν)) :=
  match settings.eventInvokeConfig.bind EventInvokeConfig.onSuccess with
  | none => some none
  | some destination => do
      let requestPayload ← codec.value s.invocation.payload
      let responsePayload ← match payload with
        | none => some codec.emptyObject
        | some p => if codec.isEmpty p then some codec.emptyObject else codec.value p
      return some ⟨destination, "Success", s.retries + 1, requestPayload, none,
        some responsePayload⟩

/-- `process_failure_destination`. It is `none` if it raises. -/
def processFailureDestination (cause : String) : Option (Option (Notification ν)) :=
  match settings.eventInvokeConfig.bind EventInvokeConfig.onFailure with
  | none => some none
  | some destination => do
      let requestPayload ← codec.value s.invocation.payload
      if cause = "ZeroReservedConcurrency" then
        return some ⟨destination, cause, s.retries, requestPayload, none, none⟩
      else
        let responsePayload ← match payload with
          | none => some codec.null
          | some p => codec.value p
        return some ⟨destination, cause, s.retries + 1, requestPayload, some "Unhandled",
          some responsePayload⟩

/-- `_prepare_messages_to_dlq`, of the result of the invocation as a text. The ARN of a function
    is one of Lambda, but that of a function with the name `sqs` has `:sqs:` in it, too. -/
def prepareMessagesToDlq (event : ν) (result : Option String) : Option (List DeadLetter) :=
  if isOfQueueOrTopic settings.functionArn then
    codec.serviceMessages settings.functionArn event result
  else do
    -- without a result `json.loads` raises a `TypeError`, which is not caught here
    let text ← result
    let error ← match codec.loads text with
      | none => some none
      | some value => codec.errorMessage value
    return [⟨codec.dumps event, error.getD "hi"⟩]

/-- `_send_to_dead_letter_queue`. -/
def sendToDeadLetterQueue (dlqArn : String) (event : ν) (result : Option String) :
    Option (List DeadLetter) := do
  let messages ← prepareMessagesToDlq codec settings event result
  return if isOfQueueOrTopic dlqArn then messages else []

/-- What `process_dead_letter_queue` does inside of its `try`. It is `none` if it raises. -/
def deadLetters (dlqArn : String) : Option (List DeadLetter) := do
  let event ← codec.event s.invocation.payload
  let result ← codec.resultText payload
  sendToDeadLetterQueue codec settings dlqArn event result

/-- `process_dead_letter_queue`. What it raises is logged. -/
def processDeadLetterQueue : List DeadLetter :=
  match settings.deadLetterQueue with
  | none => []
  | some dlqArn => (deadLetters codec settings s payload dlqArn).getD []

/-- The failure destination and then the dead-letter queue. If the first raises, nothing is left. -/
def fail (cause : String) : List (Left π τ θ ν) :=
  (processFailureDestination codec settings s payload cause).toList.map fun notification =>
    .failed cause notification (processDeadLetterQueue codec settings s payload)

/-- `process_throttles_and_system_errors`, with `MAXIMUM_EXCEPTION_RETRY_DELAY_SECONDS`. -/
def processThrottlesAndSystemErrors : List (Left π τ θ ν) :=
  [.enqueued (s.encode codec) (min (2 ^ s.exceptionRetries) (5 * 60))]

/-- Why an event is given up. The retries are only looked at after a function error. -/
def failureCause (isFunctionError : Bool) (timePassed : Nat) : Option String :=
  if settings.reservedConcurrentExecutions = some 0 then some "ZeroReservedConcurrency"
  else if isFunctionError = true ∧ settings.maxRetryAttempts ≤ s.retries then
    some "RetriesExhausted"
  else if hasEnoughTimeForRetry settings s timePassed = false then some "EventAgeExceeded"
  else none

/-- The message that is sent again after a function error. -/
def SQSInvocation.retry : SQSInvocation π τ θ :=
  { s with retries := s.retries + 1, exceptionRetries := 0 }

/-- `handle_message`, after the body is decoded. -/
def handleMessage (attempt : Attempt π) : List (Left π τ θ ν) :=
  match attempt.outcome with
  | .exception _ =>
    match failureCause settings s false attempt.timePassed with
    | some cause => fail codec settings s none cause
    | none => processThrottlesAndSystemErrors codec s
  | .result true payload =>
    match failureCause settings s true attempt.timePassed with
    | some cause => fail codec settings s payload cause
    | none =>
      [.enqueued (s.retry.encode codec) (s.retry.retries * settings.retryBaseDelaySeconds)]
  | .result false payload =>
    (processSuccessDestination codec settings s payload).toList.map .succeeded

/-- An attempt that was made, with what was in the message and what is left. -/
structure Handled (π τ θ ν : Type) where
  message : SQSInvocation π τ θ
  attempt : Attempt π
  left : List (Left π τ θ ν)
  deriving DecidableEq

def enqueuedMessage : List (Left π τ θ ν) → Option Message
  | [] => none
  | .enqueued message _ :: _ => some message
  | _ :: rest => enqueuedMessage rest

/-- The attempts that are made for a message, as long as there is one in the queue. -/
def run (message : Option Message) : List (Attempt π) → List (Handled π τ θ ν)
  | [] => []
  | attempt :: attempts =>
    match message.bind (SQSInvocation.decode codec) with
    | none => []
    | some s =>
      let left := handleMessage codec settings s attempt
      ⟨s, attempt, left⟩ :: run (enqueuedMessage left) attempts

def enqueueEvent (invocation : Invocation π τ θ) : Message :=
  SQSInvocation.encode codec ⟨invocation, 0, 0⟩

end LocalEmu.Lambda.EventManager
